import Mathlib.Data.List.TakeWhile
import Procinsh.Foundation.Lists
import Procinsh.Foundation.Transition
import Procinsh.Space.Replay

/-!
# The replayed state

The state that the viewer of a replay is in depends on the time of the replay only.  The invariant
behind this is `InSync`: the cursor counts the events up to the current time, and the calls since the
last reset apply exactly these events, in order and each at its own time.  Every operation that
computes a time keeps it, whatever the viewer is.
-/

namespace Procinsh.Space

/-! ## The invariant -/

/-- The calls apply the events in order, each right after the clock is set to its time. -/
inductive Plays : List Call → List RecordingEvent → Prop
  | nil : Plays [] []
  | clock {calls events} (time : Double) (h : Plays calls events) :
    Plays (calls ++ [.clock time]) events
  | apply {calls events} (event : RecordingEvent) (h : Plays calls events) :
    Plays (calls ++ event.calls) (events ++ [event])

theorem Plays.append_flatMap {calls : List Call} {events : List RecordingEvent}
    (h : Plays calls events) (later : List RecordingEvent) :
    Plays (calls ++ later.flatMap RecordingEvent.calls) (events ++ later) := by
  induction later generalizing calls events with
  | nil => simpa using h
  | cons event later ih => simpa using ih (h.apply event)

namespace SpaceReplay

/-- The replay is one of the recording, with a speed that is not negative. -/
structure IsOf (recording : SpaceRecording) (r : SpaceReplay) : Prop where
  recording_eq : r.recording = recording
  duration_eq : r.duration = recording.duration
  speed_nonneg : 0 ≤ r.speed

/-- The calls end with a reset followed by calls that play the events. -/
def HasPlayed (recording : SpaceRecording) (calls : List Call) (events : List RecordingEvent) :
    Prop :=
  ∃ before since, calls = before ++ .clock 0 :: .reset recording.initialSnapshot :: since ∧
    Plays since events

/-- The cursor and the calls are those of the current time. -/
structure InSync (recording : SpaceRecording) (r : SpaceReplay) : Prop
    extends IsOf recording r where
  zero_le_time : 0 ≤ r.time
  time_le_duration : r.time ≤ r.duration
  cursor_eq : r.cursor = (recording.upTo r.time).length
  calls_eq : ∃ calls, r.calls = calls ++ [.clock r.time] ∧
    HasPlayed recording calls (recording.upTo r.time)

end SpaceReplay

/-! ## Times of a recording -/

/-- The duration is zero or the time of an event. -/
theorem SpaceRecording.duration_mem (recording : SpaceRecording) :
    recording.duration ∈ 0 :: recording.events.map RecordingEvent.atMs := by
  unfold SpaceRecording.duration
  cases h : recording.events.getLast? with
  | none => exact List.mem_cons_self
  | some e =>
    exact List.mem_cons_of_mem _ (List.mem_map.mpr ⟨e, List.mem_of_getLast? h, rfl⟩)

namespace SpaceRecording.Ordered

variable {recording : SpaceRecording}

theorem le_of_le (time : Double) {e f : RecordingEvent} (hle : e.atMs ≤ f.atMs)
    (h : decide (f.atMs ≤ time)) : decide (e.atMs ≤ time) :=
  decide_eq_true (Double.le_trans hle (of_decide_eq_true h))

theorem upTo_eq_filter (hrec : recording.Ordered) (time : Double) :
    recording.upTo time = recording.events.filter (·.atMs ≤ time) :=
  takeWhile_eq_filter hrec.sorted fun _ _ _ _ => le_of_le time

theorem zero_le (hrec : recording.Ordered) {t : Double}
    (ht : t ∈ 0 :: recording.events.map RecordingEvent.atMs) : 0 ≤ t := by
  rcases List.mem_cons.mp ht with rfl | ht
  · exact Double.le_refl rfl
  · obtain ⟨e, he, rfl⟩ := List.mem_map.mp ht
    exact hrec.nonneg e he

theorem sorted_times (hrec : recording.Ordered) :
    (0 :: recording.events.map RecordingEvent.atMs).Pairwise fun t u => t ≤ u := by
  refine List.pairwise_cons.mpr ⟨fun t ht => hrec.zero_le (List.mem_cons_of_mem _ ht), ?_⟩
  exact List.pairwise_map.mpr hrec.sorted

theorem le_duration (hrec : recording.Ordered) {t : Double}
    (ht : t ∈ 0 :: recording.events.map RecordingEvent.atMs) : t ≤ recording.duration := by
  rcases List.eq_nil_or_concat recording.events with hnil | ⟨events, last, hlast⟩
  · obtain rfl : t = 0 := by simpa [hnil] using ht
    exact hrec.zero_le recording.duration_mem
  · have hduration : recording.duration = last.atMs := by
      simp [SpaceRecording.duration, hlast]
    have hsorted := hrec.sorted_times
    rw [hlast, List.concat_eq_append, List.map_append, ← List.cons_append,
      List.pairwise_append] at hsorted
    rw [hlast, List.concat_eq_append, List.map_append, ← List.cons_append, List.mem_append] at ht
    rw [hduration]
    rcases ht with ht | ht
    · exact hsorted.2.2 t ht _ (by simp)
    · obtain rfl : t = last.atMs := by simpa using ht
      exact Double.le_refl (Double.isNaN_of_isFinite (hrec.isFinite last (by simp [hlast])))

theorem zero_le_duration (hrec : recording.Ordered) : 0 ≤ recording.duration :=
  hrec.zero_le recording.duration_mem

/-- Limiting a number to a recording gives a time of the recording. -/
theorem limit_mem (hrec : recording.Ordered) {t : Double} (ht : t.isNaN = false) :
    0 ≤ Double.min recording.duration (Double.max 0 t) ∧
      Double.min recording.duration (Double.max 0 t) ≤ recording.duration := by
  have hmax : (Double.max 0 t).isNaN = false := by
    rw [Double.isNaN_max, ht]
    rfl
  exact ⟨Double.le_min hrec.zero_le_duration (Double.le_max_left rfl ht),
    Double.min_le_left (Double.isNaN_of_le hrec.zero_le_duration).2 hmax⟩

end SpaceRecording.Ordered

/-- A time of the recording is not changed by limiting it. -/
theorem limit_eq_self {d t : Double} (h0 : 0 ≤ t) (h : t ≤ d) :
    Double.min d (Double.max 0 t) = t := by
  rw [Double.max_eq_right h0, Double.min_eq_right h]

/-- The earliest of the times that are later than the old one, or the last time if there is none. -/
def IsFirstAfter (times : List Double) (old last new : Double) : Prop :=
  (new ∈ times ∧ old < new ∧ ∀ t ∈ times, old < t → new ≤ t) ∨
    (∀ t ∈ times, ¬ old < t) ∧ new = last

/-- The latest of the times that are earlier than the old one, or the first time if there is none. -/
def IsLastBefore (times : List Double) (old first new : Double) : Prop :=
  (new ∈ times ∧ new < old ∧ ∀ t ∈ times, t < old → t ≤ new) ∨
    (∀ t ∈ times, ¬ t < old) ∧ new = first

/-! ## The invariant is kept -/

namespace SpaceReplay

variable {recording : SpaceRecording} {r : SpaceReplay}

theorem InSync.take_cursor (h : r.InSync recording) :
    recording.events.take r.cursor = recording.upTo r.time := by
  rw [h.cursor_eq]
  exact (List.prefix_iff_eq_take.mp (List.takeWhile_prefix _)).symm

/-- Advancing puts a replay in sync that has played the events before its cursor, if none of them
is later than where it gets. -/
theorem advanceTo_inSync (hrec : recording.Ordered) (hr : r.IsOf recording) {time : Double}
    (htime : time.isNaN = false) (hcursor : r.cursor ≤ recording.events.length)
    (hearlier : ∀ e ∈ recording.events.take r.cursor,
      e.atMs ≤ Double.min recording.duration (Double.max 0 time))
    (hplayed : HasPlayed recording r.calls (recording.events.take r.cursor)) :
    (r.advanceTo time).InSync recording := by
  obtain ⟨hzero, hle⟩ := hrec.limit_mem htime
  have hupTo : recording.upTo (Double.min recording.duration (Double.max 0 time)) =
      recording.events.take r.cursor ++ r.due time := by
    rw [SpaceRecording.upTo, due, hr.recording_eq, hr.duration_eq,
      ← List.takeWhile_append_of_pos fun e he => decide_eq_true (hearlier e he),
      List.take_append_drop]
  obtain ⟨before, since, hcalls, hplays⟩ := hplayed
  rw [advanceTo_eq, hr.duration_eq]
  refine ⟨⟨hr.recording_eq, rfl, hr.speed_nonneg⟩, hzero, hle, ?_, ?_⟩
  · rw [hupTo, List.length_append, List.length_take, Nat.min_eq_left hcursor]
  · refine ⟨_, rfl, before, since ++ (r.due time).flatMap RecordingEvent.calls, ?_, ?_⟩
    · rw [hcalls, List.append_assoc, List.cons_append, List.cons_append]
    · rw [hupTo]
      exact hplays.append_flatMap _

theorem seek_inSync (hrec : recording.Ordered) (hr : r.IsOf recording) {time : Double}
    (htime : time.isNaN = false) : (r.seek time).InSync recording := by
  refine advanceTo_inSync hrec ?_ htime (Nat.zero_le _) ?_ ⟨r.calls, [], ?_, .nil⟩
  · exact ⟨hr.recording_eq, hr.duration_eq, hr.speed_nonneg⟩
  · simp [call]
  · simp [call, hr.recording_eq]

/-- Going forward from a replay in sync leads to one. -/
theorem InSync.advanceTo (h : r.InSync recording) (hrec : recording.Ordered) {time : Double}
    (hle : r.time ≤ time) : (r.advanceTo time).InSync recording := by
  have htime := (Double.isNaN_of_le hle).2
  obtain ⟨calls, hcalls, before, since, hbefore, hplays⟩ := h.calls_eq
  refine advanceTo_inSync hrec h.toIsOf htime ?_ ?_ ⟨before, since ++ [.clock r.time], ?_, ?_⟩
  · rw [h.cursor_eq]
    exact (List.takeWhile_prefix _).length_le
  · intro e he
    rw [h.take_cursor] at he
    have hearlier : e.atMs ≤ r.time :=
      of_decide_eq_true
        (List.mem_takeWhile_imp (p := fun e : RecordingEvent => decide (e.atMs ≤ r.time)) he)
    have hlimit : r.time ≤ Double.min recording.duration (Double.max 0 time) :=
      Double.le_min (h.duration_eq ▸ h.time_le_duration)
        (Double.le_trans hle (Double.le_max_right rfl htime))
    exact Double.le_trans hearlier hlimit
  · rw [hcalls, hbefore, List.append_assoc, List.cons_append, List.cons_append]
  · rw [h.take_cursor]
    exact hplays.clock _

theorem le_target (h : r.InSync recording) {delta : Double}
    (hnumber : (r.target delta).isNaN = false) : r.time ≤ r.target delta := by
  have hproduct : (Double.max 0 delta * r.speed).isNaN = false := by
    refine (Bool.not_eq_true _).mp fun hnan => ?_
    rw [target, Double.eq_nan_of_isNaN hnan, Double.add_nan] at hnumber
    cases hnumber
  have hdelta : delta.isNaN = false := by
    refine (Bool.not_eq_true _).mp fun hnan => ?_
    rw [Double.eq_nan_of_isNaN hnan] at hproduct
    cases hproduct
  exact Double.le_add h.zero_le_time
    (Double.mul_nonneg (Double.le_max_left rfl hdelta) h.speed_nonneg hproduct)

theorem mod_mem (h : r.InSync recording) {delta : Double} (hwraps : r.wraps delta)
    (hfinite : (r.target delta).isFinite) :
    0 ≤ r.target delta % r.duration ∧ r.target delta % r.duration < r.duration := by
  simp only [wraps, Bool.and_eq_true, decide_eq_true_eq] at hwraps
  have hle := le_target h (Double.isNaN_of_isFinite hfinite)
  exact Double.mod_mem (Double.le_trans h.zero_le_time hle) hfinite hwraps.1.2

theorem mem_times (h : r.InSync recording) {t : Double} :
    t ∈ r.times ↔ t ∈ 0 :: recording.events.map RecordingEvent.atMs := by
  have hmem := recording.duration_mem
  rw [times, h.recording_eq, h.duration_eq, List.mem_append, List.mem_singleton]
  exact ⟨fun ht => ht.elim id fun ht => ht ▸ hmem, Or.inl⟩

theorem sorted_times (h : r.InSync recording) (hrec : recording.Ordered) :
    r.times.Pairwise fun t u => t ≤ u := by
  rw [times, h.recording_eq, h.duration_eq, List.pairwise_append]
  refine ⟨hrec.sorted_times, List.pairwise_singleton _ _, fun t ht u hu => ?_⟩
  rw [List.mem_singleton.mp hu]
  exact hrec.le_duration ht

/-- A step forward goes to the first event that is later, or to the end. -/
theorem stepTime_forward (h : r.InSync recording) (hrec : recording.Ordered) :
    IsFirstAfter (recording.events.map RecordingEvent.atMs) r.time r.duration
      (r.stepTime .forward) := by
  have hmem : ∀ {t}, t ∈ r.times → r.time < t →
      t ∈ recording.events.map RecordingEvent.atMs := by
    intro t ht hlt
    rcases List.mem_cons.mp ((mem_times h).mp ht) with rfl | hevent
    · exact absurd hlt ((Double.not_lt (Double.isNaN_of_le h.zero_le_time).2 rfl).mpr
        h.zero_le_time)
    · exact hevent
  have htimes : ∀ {t}, t ∈ recording.events.map RecordingEvent.atMs → t ∈ r.times :=
    fun ht => (mem_times h).mpr (List.mem_cons_of_mem _ ht)
  rw [stepTime]
  cases hfind : r.times.find? (r.time < ·) with
  | none =>
    refine Or.inr ⟨fun t ht => ?_, rfl⟩
    simpa using List.find?_eq_none.mp hfind t (htimes ht)
  | some t =>
    have hlt : r.time < t := by simpa using List.find?_some hfind
    refine Or.inl ⟨hmem (List.mem_of_find?_eq_some hfind) hlt, hlt, fun u hu hltu => ?_⟩
    rcases rel_of_find?_eq_some (sorted_times h hrec) hfind (htimes hu) (decide_eq_true hltu) with
      rfl | hle
    · exact Double.le_refl (Double.isNaN_of_le (hrec.zero_le (List.mem_cons_of_mem _ hu))).2
    · exact hle

/-- A step back goes to the last time that is earlier, or to zero. -/
theorem stepTime_back (h : r.InSync recording) (hrec : recording.Ordered) :
    IsLastBefore (0 :: recording.events.map RecordingEvent.atMs) r.time 0 (r.stepTime .back) := by
  have hsorted : r.times.reverse.Pairwise fun t u => u ≤ t :=
    List.pairwise_reverse.mpr (sorted_times h hrec)
  rw [stepTime]
  cases hfind : r.times.reverse.find? (· < r.time) with
  | none =>
    refine Or.inr ⟨fun t ht => ?_, rfl⟩
    simpa using List.find?_eq_none.mp hfind t (List.mem_reverse.mpr ((mem_times h).mpr ht))
  | some t =>
    have hlt : t < r.time := by simpa using List.find?_some hfind
    have ht := (mem_times h).mp (List.mem_reverse.mp (List.mem_of_find?_eq_some hfind))
    refine Or.inl ⟨ht, hlt, fun u hu hltu => ?_⟩
    rcases rel_of_find?_eq_some hsorted hfind (List.mem_reverse.mpr ((mem_times h).mpr hu))
      (decide_eq_true hltu) with rfl | hle
    · exact Double.le_refl (Double.isNaN_of_le (hrec.zero_le hu)).2
    · exact hle

theorem stepTime_mem (h : r.InSync recording) (hrec : recording.Ordered) (direction : Direction) :
    r.stepTime direction ∈ 0 :: recording.events.map RecordingEvent.atMs := by
  cases direction with
  | forward =>
    rcases stepTime_forward h hrec with ⟨hmem, -, -⟩ | ⟨-, hlast⟩
    · exact List.mem_cons_of_mem _ hmem
    · rw [hlast, h.duration_eq]
      exact recording.duration_mem
  | back =>
    rcases stepTime_back h hrec with ⟨hmem, -, -⟩ | ⟨-, hfirst⟩
    · exact hmem
    · rw [hfirst]
      exact List.mem_cons_self

/-- Whether a replay is in sync does not depend on its controls. -/
theorem InSync.controls (h : r.InSync recording) (playing loop : Bool) :
    InSync recording { r with playing, loop } :=
  ⟨⟨h.recording_eq, h.duration_eq, h.speed_nonneg⟩, h.zero_le_time, h.time_le_duration,
    h.cursor_eq, h.calls_eq⟩

theorem seek_time (hr : r.IsOf recording) {time : Double} (h0 : 0 ≤ time)
    (hle : time ≤ recording.duration) : (r.seek time).time = time := by
  rw [seek, advanceTo_eq]
  exact (congrArg (Double.min · _) hr.duration_eq).trans (limit_eq_self h0 hle)

theorem step_time (h : r.InSync recording) (hrec : recording.Ordered) (direction : Direction) :
    (r.step direction).time = r.stepTime direction := by
  have hmem := stepTime_mem h hrec direction
  have hr : IsOf recording { r with playing := false } :=
    ⟨h.recording_eq, h.duration_eq, h.speed_nonneg⟩
  exact seek_time hr (hrec.zero_le hmem) (hrec.le_duration hmem)

theorem IsOf.advanceTo (hr : r.IsOf recording) (time : Double) :
    (r.advanceTo time).IsOf recording := by
  rw [advanceTo_eq]
  exact ⟨hr.recording_eq, hr.duration_eq, hr.speed_nonneg⟩

theorem InSync.tick (h : r.InSync recording) (hrec : recording.Ordered) {delta : Double}
    (hcomputes : (Operation.tick delta).Computes r) : (r.tick delta).InSync recording := by
  unfold SpaceReplay.tick
  split
  · exact h
  · rename_i hplaying
    obtain ⟨hnumber, hfinite⟩ := hcomputes (by simpa using hplaying)
    split
    · rename_i hwraps
      have hmod := mod_mem h hwraps (hfinite hwraps)
      exact (seek_inSync hrec (h.toIsOf.advanceTo _) (Double.isNaN_of_le hmod.1).2).controls _ _
    · exact h.advanceTo hrec (le_target h hnumber)

/-- Every operation that computes a time keeps a replay in sync. -/
theorem InSync.perform (h : r.InSync recording) (hrec : recording.Ordered) {op : Operation}
    (hcomputes : op.Computes r) : (r.perform op).InSync recording := by
  cases op with
  | seek time => exact seek_inSync hrec h.toIsOf hcomputes
  | tick delta => exact h.tick hrec hcomputes
  | step direction =>
    have hmem := stepTime_mem h hrec direction
    have hr : IsOf recording { r with playing := false } :=
      ⟨h.recording_eq, h.duration_eq, h.speed_nonneg⟩
    exact seek_inSync hrec hr (Double.isNaN_of_le (hrec.zero_le hmem)).2
  | setPlaying playing => exact h.controls _ _
  | setLoop loop => exact h.controls _ _
  | setSpeed speed =>
    exact ⟨⟨h.recording_eq, h.duration_eq, hcomputes⟩, h.zero_le_time, h.time_le_duration,
      h.cursor_eq, h.calls_eq⟩

theorem new_inSync (hrec : recording.Ordered) : (new recording).InSync recording :=
  seek_inSync hrec ⟨rfl, rfl, Double.zero_le_finite.mpr zero_le_one⟩ rfl

theorem advanceTo_calls (time : Double) :
    ∃ rest, (r.advanceTo time).calls = r.calls ++ rest ∧ ∀ snapshot, Call.reset snapshot ∉ rest := by
  rw [advanceTo_eq]
  refine ⟨_, List.append_assoc _ _ _, fun snapshot hmem => ?_⟩
  simp [RecordingEvent.calls] at hmem

theorem seek_calls (hr : r.IsOf recording) (time : Double) :
    ∃ rest, (r.seek time).calls =
      r.calls ++ .clock 0 :: .reset recording.initialSnapshot :: rest ∧
      ∀ snapshot, Call.reset snapshot ∉ rest := by
  obtain ⟨rest, hrest, hreset⟩ := advanceTo_calls (r := (({ r with time := 0, cursor := 0 }).call
    (.clock 0)).call (.reset r.recording.initialSnapshot)) time
  refine ⟨rest, ?_, hreset⟩
  rw [seek, hrest, ← hr.recording_eq]
  simp [call]

/-- Going to the end applies the events that are later than the current time. -/
theorem InSync.due_duration (h : r.InSync recording) (hrec : recording.Ordered) :
    r.due r.duration = recording.events.filter (r.time < ·.atMs) := by
  have hlimit : Double.min r.duration (Double.max 0 r.duration) = recording.duration := by
    rw [h.duration_eq]
    exact limit_eq_self hrec.zero_le_duration (hrec.le_duration recording.duration_mem)
  have hall : ∀ e ∈ recording.events, e.atMs ≤ recording.duration := fun e he =>
    hrec.le_duration (List.mem_cons_of_mem _ (List.mem_map.mpr ⟨e, he, rfl⟩))
  rw [due, hlimit, h.recording_eq, h.cursor_eq, List.takeWhile_eq_self_iff.mpr,
    SpaceRecording.upTo, drop_eq_filter_not hrec.sorted fun _ _ _ _ =>
      SpaceRecording.Ordered.le_of_le r.time]
  · refine List.filter_congr fun e he => ?_
    rw [← decide_not]
    exact decide_eq_decide.mpr (Double.not_le_iff (Double.isNaN_of_isFinite (hrec.isFinite e he))
      (Double.isNaN_of_le h.zero_le_time).2)
  · exact fun e he => decide_eq_true (hall e (List.mem_of_mem_drop he))

/-- A looping tick that reaches the end plays what remains before it starts over. -/
theorem InSync.tick_wraps (h : r.InSync recording) (hrec : recording.Ordered) {delta : Double}
    (hplaying : r.playing) (hwraps : r.wraps delta) :
    ∃ rest, (r.tick delta).calls =
      r.calls ++ (recording.events.filter (r.time < ·.atMs)).flatMap RecordingEvent.calls ++
        .clock recording.duration :: .clock 0 :: .reset recording.initialSnapshot :: rest ∧
      ∀ snapshot, Call.reset snapshot ∉ rest := by
  obtain ⟨rest, hrest, hreset⟩ :=
    seek_calls (h.toIsOf.advanceTo r.duration) (r.target delta % r.duration)
  refine ⟨rest, ?_, hreset⟩
  rw [SpaceReplay.tick, if_neg (by simpa using hplaying), if_pos hwraps]
  refine hrest.trans ?_
  rw [advanceTo_eq, h.due_duration hrec, h.duration_eq,
    limit_eq_self hrec.zero_le_duration (hrec.le_duration recording.duration_mem)]
  simp

end SpaceReplay

end Procinsh.Space
