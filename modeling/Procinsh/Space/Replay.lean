import Procinsh.Space.Recording

/-!
# Replaying a recording

`SpaceReplay` (`web/src/space/recording.ts`) plays a recording for a viewer, which it calls to set
the clock, to start over from the initial snapshot and to apply an event.  Playing advances from
where the replay is; seeking starts over.

Times are doubles, so an operation can compute a time that is not a number; `Operation.Computes` is
the condition that it does not.
-/

namespace Procinsh.Space

/-- A call of the replay to its viewer. -/
inductive Call
  | clock (time : Double)
  | reset (snapshot : Option Value)
  | apply (event : RecordingEvent)

/-- The last event time in milliseconds; a snapshot-only recording ends at zero. -/
def SpaceRecording.duration (recording : SpaceRecording) : Double :=
  (recording.events.getLast?.map RecordingEvent.atMs).getD 0

/-- A replay, with the calls that it has made to its viewer. -/
structure SpaceReplay where
  recording : SpaceRecording
  duration : Double
  time : Double := 0
  speed : Double := 1
  playing : Bool := false
  loop : Bool := false
  cursor : ℕ := 0
  calls : List Call := []

/-- The direction of a single step. -/
inductive Direction
  | back
  | forward

namespace SpaceReplay

/-- Calls the viewer. -/
def call (r : SpaceReplay) (c : Call) : SpaceReplay := { r with calls := r.calls ++ [c] }

/-- The loop of `advanceTo`, over the events from the cursor on. -/
def applyDue : SpaceReplay → List RecordingEvent → SpaceReplay
  | r, [] => r
  | r, event :: events =>
    if event.atMs ≤ r.time then
      applyDue ((({ r with cursor := r.cursor + 1 }).call (.clock event.atMs)).call (.apply event))
        events
    else r

/-- `advanceTo`. -/
def advanceTo (r : SpaceReplay) (time : Double) : SpaceReplay :=
  let r := { r with time := Double.min r.duration (Double.max 0 time) }
  let r := r.applyDue (r.recording.events.drop r.cursor)
  let r := r.call (.clock r.time)
  if r.duration ≤ r.time then { r with playing := false } else r

/-- `seek`. -/
def seek (r : SpaceReplay) (time : Double) : SpaceReplay :=
  ((({ r with time := 0, cursor := 0 }).call (.clock 0)).call
    (.reset r.recording.initialSnapshot)).advanceTo time

/-- The constructor. -/
def new (recording : SpaceRecording) : SpaceReplay :=
  seek { recording, duration := recording.duration } 0

/-- The time that a tick leads to, before it is limited to the recording. -/
def target (r : SpaceReplay) (delta : Double) : Double := r.time + Double.max 0 delta * r.speed

/-- A tick reaches the end while looping. -/
def wraps (r : SpaceReplay) (delta : Double) : Bool :=
  r.loop && (0 < r.duration) && (r.duration ≤ r.target delta)

/-- `tick`. -/
def tick (r : SpaceReplay) (delta : Double) : SpaceReplay :=
  if !r.playing then r
  else if r.wraps delta then
    { (r.advanceTo r.duration).seek (r.target delta % r.duration) with playing := true }
  else r.advanceTo (r.target delta)

/-- The times that single steps stop at. -/
def times (r : SpaceReplay) : List Double :=
  0 :: r.recording.events.map RecordingEvent.atMs ++ [r.duration]

/-- The time that a single step seeks. -/
def stepTime (r : SpaceReplay) : Direction → Double
  | .forward => (r.times.find? (r.time < ·)).getD r.duration
  | .back => (r.times.reverse.find? (· < r.time)).getD 0

/-- `step`. -/
def step (r : SpaceReplay) (direction : Direction) : SpaceReplay :=
  seek { r with playing := false } (r.stepTime direction)

end SpaceReplay

/-- What is done with a replay. -/
inductive Operation
  | seek (time : Double)
  | tick (delta : Double)
  | step (direction : Direction)
  | setPlaying (playing : Bool)
  | setLoop (loop : Bool)
  | setSpeed (speed : Double)

/-- The replay after an operation. -/
def SpaceReplay.perform (r : SpaceReplay) : Operation → SpaceReplay
  | .seek time => r.seek time
  | .tick delta => r.tick delta
  | .step direction => r.step direction
  | .setPlaying playing => { r with playing }
  | .setLoop loop => { r with loop }
  | .setSpeed speed => { r with speed }

/-- The operation computes a time in a replay: speeds are not negative, the time of a seek and the
target of a tick are numbers, and while looping the target is finite. -/
def Operation.Computes (r : SpaceReplay) : Operation → Prop
  | .seek time => time.isNaN = false
  | .tick delta => r.playing →
    (r.target delta).isNaN = false ∧ (r.wraps delta → (r.target delta).isFinite)
  | .setSpeed speed => 0 ≤ speed
  | _ => True

/-! ## The loop -/

/-- The events up to a time. -/
def SpaceRecording.upTo (recording : SpaceRecording) (time : Double) : List RecordingEvent :=
  recording.events.takeWhile (·.atMs ≤ time)

/-- The calls that play an event. -/
def RecordingEvent.calls (event : RecordingEvent) : List Call := [.clock event.atMs, .apply event]

namespace SpaceReplay

variable {r : SpaceReplay}

theorem applyDue_eq (events : List RecordingEvent) :
    r.applyDue events =
      { r with
        cursor := r.cursor + (events.takeWhile (·.atMs ≤ r.time)).length
        calls := r.calls ++ (events.takeWhile (·.atMs ≤ r.time)).flatMap RecordingEvent.calls } := by
  induction events generalizing r with
  | nil => simp [applyDue]
  | cons event events ih =>
    by_cases h : event.atMs ≤ r.time
    · rw [applyDue, if_pos h, ih, List.takeWhile_cons_of_pos (by simpa using h)]
      simp [call, RecordingEvent.calls, Nat.add_assoc, Nat.add_comm 1]
    · rw [applyDue, if_neg h, List.takeWhile_cons_of_neg (by simpa using h)]
      simp

/-- The events that `advanceTo` applies. -/
def due (r : SpaceReplay) (time : Double) : List RecordingEvent :=
  (r.recording.events.drop r.cursor).takeWhile
    (·.atMs ≤ Double.min r.duration (Double.max 0 time))

theorem advanceTo_eq (time : Double) :
    r.advanceTo time =
      { r with
        time := Double.min r.duration (Double.max 0 time)
        cursor := r.cursor + (r.due time).length
        calls := r.calls ++ (r.due time).flatMap RecordingEvent.calls ++
          [.clock (Double.min r.duration (Double.max 0 time))]
        playing := r.playing && !(r.duration ≤ Double.min r.duration (Double.max 0 time)) } := by
  simp only [advanceTo, applyDue_eq]
  split <;> simp_all [call, due]

end SpaceReplay

end Procinsh.Space
