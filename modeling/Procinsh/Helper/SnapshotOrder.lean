import Procinsh.Helper.MonitorSteps

/-!
# The order of the snapshots handed to a session

Snapshots reach a session through the ring and through the current snapshot that answers a lagged
poll.  Each route alone keeps the order of publication.  Together they keep it exactly when every
gap fits: its snapshot is not newer than a snapshot that the session still finds in the ring, and
not older than one that the session has been handed.

The invariant is about one list for each session, the numbers handed to it followed by the numbers
that it can still find: a poll moves the first of the latter to the end of the former.
-/

namespace Procinsh

namespace MonitorState

variable {s t : MonitorState} {a : MonitorAction}

/-! ## Order -/

/-- The numbers handed to a session, followed by those that it can still find, do not go back. -/
structure Ordered (s : MonitorState) (session : SystemSession) : Prop where
  sorted : (handedNumbers session ++ s.unreadNumbers session).Pairwise (· ≤ ·)
  le_published : ∀ n ∈ handedNumbers session, n ≤ s.published

/-- The session whose lagged poll is still to be answered. -/
def laggedSession? (s : MonitorState) : Option SystemSession :=
  match s.dispatcher with
  | .lagged k _ _ => s.sessions[k]?
  | _ => none

/-- The gap that answers a lagged poll fits: its snapshot is not older than one that the session
has been handed, and not newer than one that the session still finds in the ring. -/
def GapFits (s : MonitorState) : Prop :=
  ∀ session ∈ s.laggedSession?,
    (∀ n ∈ handedNumbers session, n ≤ s.current) ∧ ∀ n ∈ s.unreadNumbers session, s.current ≤ n

instance (s : MonitorState) : Decidable s.GapFits :=
  inferInstanceAs (Decidable (∀ session ∈ s.laggedSession?, _))

/-- Lagged polls are answered only by gaps that fit. -/
def GapsFit (s : MonitorState) (a : MonitorAction) : Prop := a = .readCurrent → s.GapFits

instance (s : MonitorState) (a : MonitorAction) : Decidable (s.GapsFit a) :=
  inferInstanceAs (Decidable (_ → _))

/-- What a session is handed and still finds stays in order when the ring takes one more event. -/
private lemma Ordered.send {session : SystemSession} (h : Ordered s session) (hinv : PublishInv s)
    {event : SystemMonitorEvent} (hchannel : t.channel = s.channel.send event)
    (hpublished : s.published ≤ t.published)
    (hevent : ∀ n ∈ numbers [event], s.published ≤ n) : Ordered t session := by
  refine ⟨?_, fun n hn => (h.le_published n hn).trans hpublished⟩
  have hsub : (t.unreadNumbers session).Sublist (s.unreadNumbers session ++ numbers [event]) := by
    rw [unreadNumbers, unreadNumbers, hchannel, ← numbers_append]
    exact numbers_sublist (s.channel.unread_send_sublist session.cursor event)
  have hlist : ((handedNumbers session ++ s.unreadNumbers session) ++ numbers [event]).Pairwise
      (· ≤ ·) := by
    refine List.pairwise_append.mpr ⟨h.sorted, pairwise_numbers_singleton event, ?_⟩
    intro m hm n hn
    refine le_trans ?_ (hevent n hn)
    rcases List.mem_append.mp hm with hm | hm
    · exact h.le_published m hm
    · exact hinv.unread_le _ m hm
  rw [List.append_assoc] at hlist
  exact hlist.sublist (List.Sublist.append_left hsub _)

/-- Order is kept by every step of the channel. -/
private lemma Ordered.channel {session : SystemSession} (h : Ordered s session)
    (hinv : PublishInv s) (hchannel : ChannelStep s t) : Ordered t session := by
  have hkeep : t.channel = s.channel → s.published ≤ t.published → Ordered t session := by
    intro hsame hpublished
    refine ⟨?_, fun n hn => (h.le_published n hn).trans hpublished⟩
    rw [unreadNumbers, hsame]
    exact h.sorted
  cases hchannel with
  | stay hsame hpublished => exact hkeep hsame hpublished.ge
  | activity hsent hpublished =>
    exact h.send hinv hsent hpublished.ge fun n hn => by cases hn
  | snapshot hsent hpublished =>
    refine h.send hinv hsent (by omega) fun n hn => ?_
    have hnumber : n = s.published + 1 := List.mem_singleton.mp hn
    omega
  | unheard _ hsame hpublished => exact hkeep hsame (by omega)

/-- Order is kept when a lagged poll is answered by a gap that fits. -/
private lemma Ordered.gap {session : SystemSession} (h : Ordered s session) (hinv : PublishInv s)
    (hbefore : ∀ n ∈ handedNumbers session, n ≤ s.current)
    (hafter : ∀ n ∈ s.unreadNumbers session, s.current ≤ n) (hchannel : t.channel = s.channel)
    (hpublished : t.published = s.published) (start dropped : ℕ) :
    Ordered t { session with handed := session.handed ++ [.gap start dropped s.current] } := by
  obtain ⟨hhanded, hunread, hacross⟩ := List.pairwise_append.mp h.sorted
  have hnumbers : handedNumbers
      { session with handed := session.handed ++ [.gap start dropped s.current] } =
      handedNumbers session ++ [s.current] := List.map_append
  refine ⟨?_, ?_⟩
  · rw [hnumbers, unreadNumbers, hchannel, List.append_assoc]
    refine List.pairwise_append.mpr ⟨hhanded, List.pairwise_cons.mpr ⟨hafter, hunread⟩, ?_⟩
    intro m hm n hn
    rcases List.mem_cons.mp hn with rfl | hn
    · exact hbefore m hm
    · exact hacross m hm n hn
  · intro n hn
    rw [hnumbers] at hn
    rw [hpublished]
    rcases List.mem_append.mp hn with hn | hn
    · exact h.le_published n hn
    · rw [List.mem_singleton.mp hn]
      exact hinv.current_le

/-- A new session is in order: its initial snapshot has been published, and all that it still
finds is the last published one. -/
private lemma Ordered.new {session : SystemSession} (hinv : PublishInv s)
    (hnew : NewSession s a t session) : Ordered t session := by
  obtain ⟨-, hreceived, hhanded, -, hchannel, hpublished, -⟩ := hnew
  have hnumbers : handedNumbers session = [s.current] := by rw [handedNumbers, hhanded]; rfl
  have hlast : ∀ n ∈ s.unreadNumbers session, n = s.published := fun n hn =>
    hinv.only_last session.cursor hreceived n
      ((numbers_sublist (List.drop_sublist_drop_left _ (Nat.le_max_left _ _))).subset hn)
  refine ⟨?_, ?_⟩
  · rw [hnumbers, unreadNumbers, hchannel]
    refine List.pairwise_cons.mpr ⟨fun n hn => ?_, ?_⟩
    · rw [hlast n hn]
      exact hinv.current_le
    · exact (hinv.increasing.sublist (numbers_sublist (List.drop_sublist _ _))).imp Nat.le_of_lt
  · intro n hn
    rw [hnumbers] at hn
    rw [hpublished, List.mem_singleton.mp hn]
    exact hinv.current_le

/-- Order is kept by every step, when the gap that answers a lagged poll fits. -/
lemma ordered_step (hinv : PublishInv s) (hfit : s.GapsFit a) (hstep : s.step a = some t)
    (h : ∀ session ∈ s.sessions, Ordered s session) : ∀ session ∈ t.sessions, Ordered t session := by
  intro session' hmem'
  obtain ⟨k, hk'⟩ := List.mem_iff_getElem?.mp hmem'
  rcases (monitor_step hstep).sessions.inv hk' with ⟨session, hk, hmove⟩ | ⟨-, hnew⟩
  · have hsession := h session (List.mem_of_getElem? hk)
    cases hmove with
    | stay => exact hsession.channel hinv (monitor_step hstep).channel
    | read event handed hheld hevent hunread hhanded hchannel hpublished =>
      -- the event moves from the front of what is unread to the end of what is handed
      have hsplit : handedNumbers ⟨session.cursor + 1, handed, true⟩ ++
          numbers (s.channel.unread (session.cursor + 1)) =
          handedNumbers session ++ s.unreadNumbers session := by
        rw [unreadNumbers, hunread, numbers_cons, handedNumbers, hhanded, List.map_append,
          List.append_assoc]
        rfl
      refine ⟨?_, fun n hn => ?_⟩
      · rw [unreadNumbers, hchannel, hsplit]
        exact hsession.sorted
      · rw [hpublished]
        have hn' : n ∈ handedNumbers session ++ s.unreadNumbers session := by
          rw [← hsplit]
          exact List.mem_append_left _ hn
        rcases List.mem_append.mp hn' with hn' | hn'
        · exact hsession.le_published n hn'
        · exact hinv.unread_le _ n hn'
    | lag hheld hcursor hunread hchannel hpublished =>
      refine ⟨?_, by rw [hpublished]; exact hsession.le_published⟩
      rw [unreadNumbers, hchannel, hunread]
      exact hsession.sorted
    | gap start dropped haction hlagged hchannel hpublished =>
      obtain ⟨hbefore, hafter⟩ := hfit haction session (by rw [laggedSession?, hlagged]; exact hk)
      exact hsession.gap hinv hbefore hafter hchannel hpublished start dropped
    | drop hchannel hpublished =>
      refine ⟨?_, by rw [hpublished]; exact hsession.le_published⟩
      rw [unreadNumbers, hchannel]
      exact hsession.sorted
  · exact Ordered.new hinv hnew

/-! ## Runs -/

/-- The invariants of the runs in which every gap fits. -/
private lemma run_ordered {as : List MonitorAction} (hguard : Guarded GapsFit step new as)
    (hrun : run step new as = some s) : ∀ session ∈ s.sessions, Ordered s session := by
  have hinv : PublishInv s ∧ ∀ session ∈ s.sessions, Ordered s session := by
    refine guarded_invariant (I := fun s => PublishInv s ∧ ∀ session ∈ s.sessions, Ordered s session)
      (fun s a t hs hfit hstep => ?_) ?_ hguard hrun
    · exact ⟨hs.1.step hstep, ordered_step hs.1 hfit hstep hs.2⟩
    · exact ⟨publishInv_new, by simp [new]⟩
  exact hinv.2

/-- A poll hands out the next event when the receiver has not lagged. -/
private lemma poll_value {k : ℕ} {session : SystemSession} {event : SystemMonitorEvent}
    (hidle : s.dispatcher = .idle) (hk : s.sessions[k]? = some session)
    (hheld : session.held = true) (holdest : s.channel.oldest ≤ session.cursor)
    (hevent : s.channel.log[session.cursor]? = some event) :
    s.step (.poll k) = some { s with
      sessions := s.sessions.set k
        ⟨session.cursor + 1, session.handed ++ deliveries event, true⟩ } := by
  obtain ⟨cursor, handed, held⟩ := session
  obtain rfl : held = true := hheld
  have hrecv : s.channel.tryRecv cursor = (.value event, cursor + 1) := by
    unfold Broadcast.tryRecv
    rw [if_neg (Nat.not_lt.mpr holdest), hevent]
  simp only [MonitorState.step, hidle, hk, hrecv]
  cases event with
  | snapshot number => rfl
  | activity => simp [deliveries]

/-- Polls hand out all that the ring retains. -/
private lemma polls_value {k : ℕ} : ∀ (events : List SystemMonitorEvent) {s : MonitorState}
    {session : SystemSession}, s.dispatcher = .idle → s.sessions[k]? = some session →
    session.held = true → s.channel.oldest ≤ session.cursor →
    s.channel.log.drop session.cursor = events →
    ∃ as t session', run step s as = some t ∧ t.sessions[k]? = some session' ∧
      handedNumbers session' = handedNumbers session ++ numbers events
  | [], s, session, _, hk, _, _, _ =>
    ⟨[], s, session, rfl, hk, (List.append_nil _).symm⟩
  | event :: events, s, session, hidle, hk, hheld, holdest, hdrop => by
    have hlt : session.cursor < s.channel.log.length := by
      by_contra hge
      rw [List.drop_eq_nil_of_le (Nat.le_of_not_lt hge)] at hdrop
      cases hdrop
    rw [List.drop_eq_getElem_cons hlt] at hdrop
    obtain ⟨hhead, htail⟩ := List.cons.inj hdrop
    have hevent : s.channel.log[session.cursor]? = some event := by
      rw [List.getElem?_eq_getElem hlt, hhead]
    have hstep := poll_value hidle hk hheld holdest hevent
    have hklt : k < s.sessions.length := (List.getElem?_eq_some_iff.mp hk).1
    have hk' := List.getElem?_set_self (a := ⟨session.cursor + 1,
      session.handed ++ deliveries event, true⟩) hklt
    obtain ⟨as, t, session', hrun, hsession', hhanded⟩ :=
      polls_value events (s := { s with sessions := s.sessions.set k _ }) hidle hk' rfl
        (Nat.le_succ_of_le holdest) htail
    refine ⟨.poll k :: as, t, session', ?_, hsession', ?_⟩
    · rw [run_cons, hstep]
      exact hrun
    · rw [hhanded, numbers_cons, ← List.append_assoc]
      congr 1
      exact List.map_append

/-- A held session can be polled until it has been handed all the snapshots that the ring retained
for it. -/
private lemma catch_up {k : ℕ} {session : SystemSession} (hidle : s.dispatcher = .idle)
    (hk : s.sessions[k]? = some session) (hheld : session.held = true) :
    ∃ as t session' between, run step s as = some t ∧ t.sessions[k]? = some session' ∧
      handedNumbers session' = handedNumbers session ++ between ++ s.unreadNumbers session := by
  by_cases holdest : s.channel.oldest ≤ session.cursor
  · obtain ⟨as, t, session', hrun, hk', hhanded⟩ := polls_value _ hidle hk hheld holdest rfl
    refine ⟨as, t, session', [], hrun, hk', ?_⟩
    rw [hhanded, List.append_nil, unreadNumbers, Broadcast.unread, Nat.max_eq_left holdest]
  · -- the receiver has lagged again: one more gap takes it to the oldest retained event
    have hlag : session.cursor < s.channel.oldest := Nat.lt_of_not_le holdest
    obtain ⟨cursor, handed, held⟩ := session
    obtain rfl : held = true := hheld
    have hklt : k < s.sessions.length := (List.getElem?_eq_some_iff.mp hk).1
    have hrecv : s.channel.tryRecv cursor =
        (.lagged (s.channel.oldest - cursor), s.channel.oldest) := if_pos hlag
    let gap : SystemSession := ⟨s.channel.oldest,
      handed ++ [.gap cursor (s.channel.oldest - cursor) s.current], true⟩
    have hgap : run step s [.poll k, .readCurrent] =
        some { s with sessions := s.sessions.set k gap } := by
      simp [MonitorState.step, hidle, hk, hrecv, List.getElem?_set_self hklt, gap]
    obtain ⟨as, t, session', hrun, hk', hhanded⟩ :=
      polls_value _ (s := { s with sessions := s.sessions.set k gap }) hidle
        (List.getElem?_set_self hklt) rfl (Nat.le_refl _) rfl
    refine ⟨[.poll k, .readCurrent] ++ as, t, session', [s.current], ?_, hk', ?_⟩
    · exact run_append_eq_some.mpr ⟨_, hgap, hrun⟩
    · rw [hhanded, unreadNumbers, Broadcast.unread, Nat.max_eq_right (Nat.le_of_lt hlag)]
      congr 1
      exact List.map_append

/-- A gap that does not fit takes the session back in time, at once or in its next polls. -/
private lemma goes_back (hinv : LaggedInv s) (hfit : ¬ s.GapFits) :
    ∃ bs t, run step s (.readCurrent :: bs) = some t ∧
      ∃ session ∈ t.sessions, ¬ (handedNumbers session).Pairwise (· ≤ ·) := by
  unfold GapFits at hfit
  push Not at hfit
  obtain ⟨session, hlagged, hback⟩ := hfit
  obtain ⟨k, start, dropped, hdispatcher, hk⟩ :
      ∃ k start dropped, s.dispatcher = .lagged k start dropped ∧ s.sessions[k]? = some session := by
    unfold laggedSession? at hlagged
    split at hlagged
    · next k start dropped hdispatcher => exact ⟨k, start, dropped, hdispatcher, hlagged⟩
    · cases hlagged
  obtain ⟨session', hk', hheld, -⟩ := hinv k start dropped hdispatcher
  obtain rfl : session' = session := Option.some.inj (hk'.symm.trans hk)
  have hklt : k < s.sessions.length := (List.getElem?_eq_some_iff.mp hk).1
  let answered : SystemSession :=
    { session' with handed := session'.handed ++ [.gap start dropped s.current] }
  have hstep : s.step .readCurrent =
      some { s with sessions := s.sessions.set k answered, dispatcher := .idle } := by
    simp [MonitorState.step, hdispatcher, hk, answered]
  obtain ⟨bs, t, last, between, hrun, hlast, hhanded⟩ :=
    catch_up (s := { s with sessions := s.sessions.set k answered, dispatcher := .idle }) rfl
      (List.getElem?_set_self hklt) hheld
  refine ⟨bs, t, run_cons_eq_some.mpr ⟨_, hstep, hrun⟩, last, List.mem_of_getElem? hlast, ?_⟩
  have hanswered : handedNumbers answered = handedNumbers session' ++ [s.current] := List.map_append
  rw [hhanded, hanswered]
  intro hsorted
  obtain ⟨hfront, -, hacross⟩ := List.pairwise_append.mp hsorted
  have hbefore : ∀ n ∈ handedNumbers session', n ≤ s.current := fun n hn =>
    (List.pairwise_append.mp (List.pairwise_append.mp hfront).1).2.2 n hn _
      (List.mem_singleton.mpr rfl)
  obtain ⟨n, hn, hlt⟩ := hback hbefore
  have hle : s.current ≤ n := hacross _ (by simp) n hn
  omega

/-- In every run in which lagged polls are answered only by gaps that fit, the snapshots handed to
each session are in the order of publication; and a gap that does not fit breaks the order. -/
theorem history_ordered_iff_gapsFit {as : List MonitorAction} (hrun : run step new as = some s) :
    (Guarded GapsFit step new as →
      ∀ session ∈ s.sessions, (handedNumbers session).Pairwise (· ≤ ·)) ∧
    (¬ s.GapFits → ∃ bs t, run step s (.readCurrent :: bs) = some t ∧
      ∃ session ∈ t.sessions, ¬ (handedNumbers session).Pairwise (· ≤ ·)) := by
  refine ⟨fun hguard session hmem => ?_, fun hfit => ?_⟩
  · have hordered := run_ordered hguard hrun session hmem
    exact (List.pairwise_append.mp hordered.sorted).1
  · have hinv : LaggedInv s := run_invariant (fun _ _ _ h hstep => h.step hstep) laggedInv_new hrun
    exact goes_back hinv hfit

/-- The steps of a subscription. -/
def subscription : List MonitorAction := [.subscribe, .takeReceiver, .readInitial, .finishSubscribe]

/-- The steps by which the worker publishes a snapshot. -/
def publication : List MonitorAction := [.workerCheck, .workerSend, .workerStore]

/-- A lagged poll after one snapshot and sixteen activities is answered by a gap that fits. -/
theorem history_ordered_of_activityLag :
    ∃ s, run step new (subscription ++ publication ++
        (List.replicate 16 [.activityCheck, .activitySend]).flatten ++ [.poll 0, .readCurrent]) =
      some s ∧ s.sessions.map handedNumbers = [[0, 1]] ∧
      ∀ session ∈ s.sessions, (handedNumbers session).Pairwise (· ≤ ·) :=
  ⟨(run step new _).get (by decide +kernel), (Option.some_get _).symm, by decide +kernel,
    (history_ordered_iff_gapsFit (Option.some_get _).symm).1 (by decide +kernel)⟩

/-- After seventeen publications a lagged poll hands out the last one, and the next poll the
second. -/
theorem history_goesBack_of_snapshotLag :
    ∃ s, run step new (subscription ++ (List.replicate 17 publication).flatten ++
        [.poll 0, .readCurrent, .poll 0]) = some s ∧
      s.sessions.map handedNumbers = [[0, 17, 2]] ∧
      ¬ ∀ session ∈ s.sessions, (handedNumbers session).Pairwise (· ≤ ·) :=
  ⟨(run step new _).get (by decide +kernel), (Option.some_get _).symm, by decide +kernel,
    by decide +kernel⟩

end MonitorState

end Procinsh
