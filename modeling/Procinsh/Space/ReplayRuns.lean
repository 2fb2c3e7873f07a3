import Procinsh.Space.ReplaySync

/-!
# Runs of a replay

What a viewer gets to see in any run of a replay.  A viewer is given by what it does on a reset and
on an event, both of which may use its clock; its state is then the one that a single seek on a new
replay leads to.
-/

namespace Procinsh.Space

/-- A viewer with states of any kind; its clock is set apart from them. -/
structure Viewer (V : Type) where
  reset : Double → Option Value → V
  apply : Double → V → RecordingEvent → V

namespace Viewer

variable {V : Type} (viewer : Viewer V)

/-- The clock and the state after a call. -/
def receive : Double × V → Call → Double × V
  | (_, s), .clock time => (time, s)
  | (clock, _), .reset snapshot => (clock, viewer.reset clock snapshot)
  | (clock, s), .apply event => (clock, viewer.apply clock s event)

/-- The clock and the state after calls. -/
def receiveAll (s : Double × V) (calls : List Call) : Double × V := calls.foldl viewer.receive s

/-- The state at a time of a recording: every event up to it is applied at its own time. -/
def stateAt (recording : SpaceRecording) (time : Double) : V :=
  (recording.upTo time).foldl (fun s event => viewer.apply event.atMs s event)
    (viewer.reset 0 recording.initialSnapshot)

theorem receiveAll_append (s : Double × V) (calls later : List Call) :
    viewer.receiveAll s (calls ++ later) = viewer.receiveAll (viewer.receiveAll s calls) later :=
  List.foldl_append

theorem receiveAll_of_plays {calls : List Call} {events : List RecordingEvent}
    (h : Plays calls events) (s : Double × V) :
    (viewer.receiveAll s calls).2 =
      events.foldl (fun s event => viewer.apply event.atMs s event) s.2 := by
  induction h with
  | nil => rfl
  | clock time _ ih => rw [receiveAll_append, ← ih]; rfl
  | apply event _ ih => rw [receiveAll_append, List.foldl_append, ← ih]; rfl

/-- The state depends on the time of a replay only. -/
theorem receiveAll_of_inSync {recording : SpaceRecording} {r : SpaceReplay}
    (h : r.InSync recording) (s : Double × V) :
    viewer.receiveAll s r.calls = (r.time, viewer.stateAt recording r.time) := by
  obtain ⟨calls, hcalls, before, since, hbefore, hplays⟩ := h.calls_eq
  rw [hcalls, hbefore, receiveAll_append, receiveAll_append]
  exact Prod.ext rfl (viewer.receiveAll_of_plays hplays _)

end Viewer

/-- The event that a call applies. -/
def Call.event? : Call → Option RecordingEvent
  | .apply event => some event
  | _ => none

/-- The calls since the last reset are one reset to the initial snapshot, then one call to apply each
event up to the time, in recording order and right after the clock is set to the time of the event;
the last call sets the clock to the time. -/
def PlaysUpTo (recording : SpaceRecording) (time : Double) (calls : List Call) : Prop :=
  ∃ before since, calls = before ++ .reset recording.initialSnapshot :: since ∧
    (∀ snapshot, .reset snapshot ∉ since) ∧
    since.filterMap Call.event? = recording.events.filter (·.atMs ≤ time) ∧
    (∀ earlier event later, since = earlier ++ .apply event :: later →
      earlier.getLast? = some (.clock event.atMs)) ∧
    since.getLast? = some (.clock time)

namespace Plays

variable {calls : List Call} {events : List RecordingEvent}

theorem reset_notMem (h : Plays calls events) (snapshot : Option Value) :
    .reset snapshot ∉ calls := by
  induction h with
  | nil => exact List.not_mem_nil
  | clock time _ ih => simpa using ih
  | apply event _ ih => simpa [RecordingEvent.calls] using ih

theorem filterMap_event? (h : Plays calls events) : calls.filterMap Call.event? = events := by
  induction h with
  | nil => rfl
  | clock time _ ih => rw [List.filterMap_append, ih]; exact List.append_nil _
  | apply event _ ih => rw [List.filterMap_append, ih]; rfl

theorem getLast?_of_apply (h : Plays calls events) {earlier later : List Call}
    {event : RecordingEvent} (hcalls : calls = earlier ++ .apply event :: later) :
    earlier.getLast? = some (.clock event.atMs) := by
  have hclock : ∀ {calls later : List Call} {time : Double},
      (∀ {later}, calls = earlier ++ .apply event :: later →
        earlier.getLast? = some (.clock event.atMs)) →
      calls ++ [.clock time] = earlier ++ .apply event :: later →
      earlier.getLast? = some (.clock event.atMs) := by
    intro calls later time ih hcalls
    rcases eq_or_exists_of_concat_eq hcalls with ⟨-, heq⟩ | ⟨later', hlater⟩
    · cases heq
    · exact ih hlater
  induction h generalizing later with
  | nil => simp at hcalls
  | clock time _ ih => exact hclock ih hcalls
  | @apply calls events other _ ih =>
    rw [RecordingEvent.calls, ← List.singleton_append, ← List.append_assoc] at hcalls
    rcases eq_or_exists_of_concat_eq hcalls with ⟨rfl, heq⟩ | ⟨later', hlater⟩
    · cases heq
      simp
    · exact hclock ih hlater

end Plays

namespace SpaceReplay

variable {recording : SpaceRecording} {r : SpaceReplay}

theorem InSync.playsUpTo (h : r.InSync recording) (hrec : recording.Ordered) :
    PlaysUpTo recording r.time r.calls := by
  obtain ⟨calls, hcalls, before, since, hbefore, hplays⟩ := h.calls_eq
  have hlast := hplays.clock r.time
  refine ⟨before ++ [.clock 0], since ++ [.clock r.time], ?_, hlast.reset_notMem, ?_,
    fun earlier event later => hlast.getLast?_of_apply, List.getLast?_concat⟩
  · simp [hcalls, hbefore]
  · rw [hlast.filterMap_event?, hrec.upTo_eq_filter]

/-- An operation as a step of a run. -/
def transition (r : SpaceReplay) (op : Operation) : Option SpaceReplay := some (r.perform op)

/-- A run whose operations all compute a time ends in sync. -/
theorem run_inSync (hrec : recording.Ordered) {ops : List Operation}
    (hcomputes : Guarded (fun r op => op.Computes r) transition (new recording) ops)
    (hrun : run transition (new recording) ops = some r) : r.InSync recording := by
  refine guarded_invariant (fun s op t hs hop ht => ?_) (new_inSync hrec) hcomputes hrun
  cases ht
  exact hs.perform hrec hop

/-- In every run on a recording that the parser accepts, all of whose operations compute a time: the
time is in the recording, the viewer has been given exactly what happened up to it, and its state is
that of a single seek; single steps go to the next and the last event time; a looping tick that
reaches the end plays what remains before it starts over. -/
theorem run_replays {platform : Platform} {snapshot activity : Check} {text : String}
    (hparse : parseRecording platform snapshot activity text = .ok recording)
    {ops : List Operation}
    (hcomputes : Guarded (fun r op => op.Computes r) transition (new recording) ops)
    (hrun : run transition (new recording) ops = some r) :
    (0 ≤ r.time ∧ r.time ≤ recording.duration) ∧
      PlaysUpTo recording r.time r.calls ∧
      (∀ (V : Type) (viewer : Viewer V) (s t : Double × V), viewer.receiveAll s r.calls =
        viewer.receiveAll t ((new recording).seek r.time).calls) ∧
      IsFirstAfter (recording.events.map RecordingEvent.atMs) r.time recording.duration
        (r.step .forward).time ∧
      IsLastBefore (0 :: recording.events.map RecordingEvent.atMs) r.time 0 (r.step .back).time ∧
      ∀ delta, r.playing → r.wraps delta → (r.target delta).isFinite →
        (r.tick delta).time = r.target delta % recording.duration ∧ (r.tick delta).playing ∧
        ∃ rest, (r.tick delta).calls =
          r.calls ++ (recording.events.filter (r.time < ·.atMs)).flatMap RecordingEvent.calls ++
            .clock recording.duration :: .clock 0 :: .reset recording.initialSnapshot :: rest ∧
          ∀ snapshot, Call.reset snapshot ∉ rest := by
  have hrec := ordered_of_parseRecording_eq_ok hparse
  have h := run_inSync hrec hcomputes hrun
  have hle : r.time ≤ recording.duration := h.duration_eq ▸ h.time_le_duration
  have hseek := (new_inSync hrec).toIsOf
  refine ⟨⟨h.zero_le_time, hle⟩, h.playsUpTo hrec, fun V viewer s t => ?_, ?_, ?_,
    fun delta hplaying hwraps hfinite => ⟨?_, ?_, h.tick_wraps hrec hplaying hwraps⟩⟩
  · rw [viewer.receiveAll_of_inSync h,
      viewer.receiveAll_of_inSync (seek_inSync hrec hseek (Double.isNaN_of_le hle).1),
      seek_time hseek h.zero_le_time hle]
  · rw [step_time h hrec, ← h.duration_eq]
    exact stepTime_forward h hrec
  · rw [step_time h hrec]
    exact stepTime_back h hrec
  · have hmod := mod_mem h hwraps hfinite
    rw [SpaceReplay.tick, if_neg (by simpa using hplaying), if_pos hwraps, ← h.duration_eq]
    exact seek_time (h.toIsOf.advanceTo _) hmod.1 (h.duration_eq ▸ Double.le_of_lt hmod.2)
  · rw [SpaceReplay.tick, if_neg (by simpa using hplaying), if_pos hwraps]

/-! ### Times that are not numbers -/

theorem limit_nan (d : Double) : Double.min d (Double.max 0 .nan) = .nan := by
  simp [Double.max, Double.min, Double.isNaN]

/-- A looping tick that reaches the end with an infinite target leads to no time. -/
theorem tick_time_of_infinite {delta : Double} (hplaying : r.playing) (hwraps : r.wraps delta)
    (hinfinite : (r.target delta).isFinite = false) : (r.tick delta).time = .nan := by
  rw [SpaceReplay.tick, if_neg (by simpa using hplaying), if_pos hwraps,
    Double.mod_of_not_isFinite hinfinite, seek, advanceTo_eq]
  exact limit_nan _

/-- The condition on the operations is exact: another one leads to no time. -/
theorem time_eq_nan {op : Operation}
    (hspeed : ∀ speed, op = .setSpeed speed → 0 ≤ speed) (hcomputes : ¬ op.Computes r) :
    (r.perform op).time = .nan := by
  cases op with
  | seek time =>
    obtain rfl : time = .nan :=
      Double.eq_nan_of_isNaN (by simpa [Operation.Computes] using hcomputes)
    rw [SpaceReplay.perform, seek, advanceTo_eq]
    exact limit_nan _
  | tick delta =>
    obtain ⟨hplaying, hnot⟩ := Classical.not_imp.mp hcomputes
    cases hnan : (r.target delta).isNaN with
    | true =>
      have hwraps : r.wraps delta = false := by
        simp [wraps, Double.eq_nan_of_isNaN hnan]
      rw [SpaceReplay.perform, SpaceReplay.tick, if_neg (by simpa using hplaying), hwraps,
        if_neg Bool.false_ne_true, advanceTo_eq, Double.eq_nan_of_isNaN hnan]
      exact limit_nan _
    | false =>
      obtain ⟨hwraps, hinfinite⟩ := Classical.not_imp.mp fun hfinite => hnot ⟨hnan, hfinite⟩
      exact tick_time_of_infinite hplaying hwraps (by simpa using hinfinite)
  | step direction => exact absurd trivial hcomputes
  | setPlaying playing => exact absurd trivial hcomputes
  | setLoop loop => exact absurd trivial hcomputes
  | setSpeed speed => exact absurd (hspeed speed rfl) hcomputes

end SpaceReplay

/-! ### A recording -/

/-- An event of `testRecording`. -/
def testEvent (atMs : Double) : Value :=
  .object [("at_ms", .number atMs), ("type", .string "activity"), ("data", .object [])]

/-- A recording of three events. -/
def testRecording : Value :=
  .object [("format_version", .number 1), ("view_type", .string "space"),
    ("started_at", .string "2026-01-01T00:00:00Z"), ("duration_ms", .number (.ofInt 30 (by decide))),
    ("initial_snapshot", .object []),
    ("events", .array [testEvent 0, testEvent (.ofInt 10 (by decide)),
      testEvent (.ofInt 20 (by decide))]),
    ("end_reason", .string "Stopped by user")]

/-- A browser that reads `testRecording`. -/
def testPlatform : Platform where
  parse _ := some testRecording
  parseDate _ := 0
  display _ := ""

theorem parseRecording_testRecording :
    parseRecording testPlatform (fun _ _ => .ok ()) (fun _ _ => .ok ()) "" =
      .ok (.ofValue testRecording) := by
  rfl

namespace SpaceReplay

/-- A seek and a step back. -/
def testOperations : List Operation := [.setLoop true, .seek (.ofInt 15 (by decide)), .step .back]

theorem guarded_testOperations :
    Guarded (fun r op => op.Computes r) transition (new (.ofValue testRecording)) testOperations :=
  ⟨trivial, fun _ _ => ⟨rfl, fun _ _ => ⟨trivial, fun _ _ => trivial⟩⟩⟩

/-- Back from 15 ms, the replay is at 10 ms. -/
theorem run_replays_testRecording :
    ∃ r, run transition (new (.ofValue testRecording)) testOperations = some r ∧
      r.time = .ofInt 10 (by decide) ∧ PlaysUpTo (.ofValue testRecording) r.time r.calls :=
  ⟨_, rfl, rfl, (run_replays parseRecording_testRecording guarded_testOperations rfl).2.1⟩

/-- A time that is finite, and infinite when doubled. -/
def halfOverflow : Double := .finite (2 ^ (1023 : ℤ)) (isDouble_zpow (by decide) (by decide))

theorem halfOverflow_mul_two : halfOverflow * .ofInt 2 (by decide) = .posInf := by
  refine Double.round_eq_posInf (le_of_eq ?_)
  calc overflow = 2 ^ (1023 + 1 : ℤ) := by unfold overflow; norm_num
    _ = 2 ^ (1023 : ℤ) * ((2 : ℤ) : ℚ) := zpow_add_one₀ two_ne_zero _

/-- A looping tick at double speed whose target is too large for a double leads to no time, and
neither does a seek to no number. -/
theorem run_overflow :
    parseRecording testPlatform (fun _ _ => .ok ()) (fun _ _ => .ok ()) "" =
        .ok (.ofValue testRecording) ∧
      (∃ r, run transition (new (.ofValue testRecording))
        [.setLoop true, .setPlaying true, .setSpeed (.ofInt 2 (by decide)), .tick halfOverflow] =
          some r ∧ ¬ 0 ≤ r.time) ∧
      ¬ 0 ≤ ((new (.ofValue testRecording)).seek .nan).time := by
  refine ⟨parseRecording_testRecording, ⟨_, rfl, ?_⟩, Bool.false_ne_true⟩
  set s : SpaceReplay := { new (.ofValue testRecording) with
    loop := true
    playing := true
    speed := .ofInt 2 (by decide) } with hs
  have htarget : s.target halfOverflow = .posInf := by
    have hmax : Double.max 0 halfOverflow = halfOverflow :=
      Double.max_eq_right (Double.zero_le_finite.mpr (zpow_pos two_pos _).le)
    rw [target, hmax]
    exact congrArg (s.time + ·) halfOverflow_mul_two
  have htime : (s.tick halfOverflow).time = .nan := by
    refine tick_time_of_infinite rfl ?_ ?_
    · rw [wraps, htarget]
      rfl
    · rw [htarget]
      rfl
  exact fun h => Double.not_le_nan (htime ▸ h)

end SpaceReplay

end Procinsh.Space
