import Procinsh.Space.Recorder

/-!
# What is recorded can be replayed

The text of a finished recording is as long as the recorder has counted, but for the end of the recording,
and `parseRecording` accepts it and returns the recording: see `parseRecording_of_run`.
-/

namespace Procinsh.Space

open RecordingSchema

/-! ## Sizes -/

/-- The length of a text in bytes. -/
def charsSize (l : List Char) : ℕ := (String.ofList l).utf8ByteSize

theorem charsSize_append (l m : List Char) : charsSize (l ++ m) = charsSize l + charsSize m := by
  unfold charsSize
  rw [String.ofList_append, String.utf8ByteSize_append]

theorem charsSize_cons (c : Char) (l : List Char) : charsSize (c :: l) = charsSize [c] + charsSize l :=
  charsSize_append [c] l

section Sizes

variable (display : Double → String)

/-- The text of a recording around its duration, its events and its end. -/
theorem textChars_toValue (startedAt : String) (initial : Value) :
    ∃ before between behind last : List Char, ∀ (durationMs : Double) (events : List RecordingEvent)
      (endReason : String),
      (SpaceRecording.toValue ⟨startedAt, durationMs, some initial, events, endReason⟩).textChars
          display =
        before ++ (Value.number durationMs).textChars display ++ between ++
          itemsText display (events.map RecordingEvent.toValue) ++ behind ++
          Json.stringText endReason ++ last := by
  refine ⟨'\x7b' :: (Json.stringText "format_version" ++ ':' :: (Value.number 1).textChars display ++
      ',' :: Json.stringText "view_type" ++ ':' :: (Value.string "space").textChars display ++
      ',' :: Json.stringText "started_at" ++ ':' :: (Value.string startedAt).textChars display ++
      ',' :: Json.stringText "duration_ms" ++ [':']),
    ',' :: Json.stringText "initial_snapshot" ++ ':' :: initial.textChars display ++
      ',' :: Json.stringText "events" ++ [':', '['],
    ']' :: ',' :: Json.stringText "end_reason" ++ [':'], ['\x7d'], fun durationMs events endReason => ?_⟩
  simp only [SpaceRecording.toValue, Value.textChars, entriesText, Option.map_some,
    Option.toList_some, List.cons_append, List.nil_append, List.append_assoc]

/-- An item costs its text and a comma, unless it is the first. -/
theorem charsSize_itemsText_concat (vs : List Value) (v : Value) :
    charsSize (itemsText display (vs ++ [v])) =
      charsSize (itemsText display vs) + v.textSize display + if vs = [] then 0 else 1 := by
  have hcomma : charsSize [','] = 1 := rfl
  induction vs with
  | nil =>
    show charsSize (v.textChars display) = 0 + v.textSize display + 0
    rw [Nat.add_zero, Nat.zero_add]
    rfl
  | cons w vs ih =>
    rw [if_neg (List.cons_ne_nil w vs)]
    cases vs with
    | nil =>
      show charsSize (w.textChars display ++ ',' :: v.textChars display) =
        charsSize (w.textChars display) + v.textSize display + 1
      rw [charsSize_append, charsSize_cons, hcomma, show v.textSize display =
        charsSize (v.textChars display) from rfl]
      omega
    | cons u vs =>
      rw [if_neg (List.cons_ne_nil u vs)] at ih
      show charsSize (w.textChars display ++ ',' :: itemsText display (u :: vs ++ [v])) =
        charsSize (w.textChars display ++ ',' :: itemsText display (u :: vs)) + v.textSize display + 1
      rw [charsSize_append, charsSize_append, charsSize_cons, charsSize_cons ',' (itemsText _ _), ih]
      omega

/-- The length of the text of a recording in bytes. -/
def SpaceRecording.size (r : SpaceRecording) : ℕ := r.toValue.textSize display

/-- A further event costs its text and a comma, unless it is the first. -/
theorem size_concat (startedAt : String) (durationMs : Double) (initial : Value)
    (events : List RecordingEvent) (e : RecordingEvent) (endReason : String) :
    (SpaceRecording.mk startedAt durationMs (some initial) (events ++ [e]) endReason).size display =
      (SpaceRecording.mk startedAt durationMs (some initial) events endReason).size display +
        e.toValue.textSize display + if events = [] then 0 else 1 := by
  obtain ⟨before, between, behind, last, htext⟩ := textChars_toValue display startedAt initial
  have hitems := charsSize_itemsText_concat display (events.map RecordingEvent.toValue) e.toValue
  have hnil : (events.map RecordingEvent.toValue = []) ↔ events = [] := List.map_eq_nil_iff
  unfold SpaceRecording.size Value.textSize Value.text
  rw [htext, htext]
  show charsSize _ = charsSize _ + _ + _
  rw [List.map_append, List.map_singleton]
  simp only [charsSize_append, hitems, hnil]
  show _ = _ + e.toValue.textSize display + _
  omega

/-- The end of a recording costs the texts of its duration and of its reason. -/
theorem size_end (startedAt : String) (durationMs : Double) (initial : Value)
    (events : List RecordingEvent) (endReason : String) :
    (SpaceRecording.mk startedAt durationMs (some initial) events endReason).size display +
        (Value.number 0).textSize display + (Value.string "Recording").textSize display =
      (SpaceRecording.mk startedAt 0 (some initial) events "Recording").size display +
        (Value.number durationMs).textSize display + (Value.string endReason).textSize display := by
  obtain ⟨before, between, behind, last, htext⟩ := textChars_toValue display startedAt initial
  unfold SpaceRecording.size Value.textSize Value.text
  rw [htext, htext]
  show charsSize _ + charsSize _ + charsSize (Json.stringText "Recording") =
    charsSize _ + charsSize _ + charsSize (Json.stringText endReason)
  simp only [charsSize_append]
  omega

end Sizes

/-! ## Times -/

/-- What the recorder makes of a time of the clock. -/
def since (start now : Double) : Double := Double.max 0 (now - start)

variable {start now later : Double}

theorem since_eq (hstart : 0 ≤ start) (hnow : start ≤ now) (hfinite : now.isFinite) :
    since start now = now - start :=
  Double.max_eq_right (Double.sub_mem hstart hnow hfinite).1

theorem since_mem (hstart : 0 ≤ start) (hnow : start ≤ now) (hfinite : now.isFinite) :
    0 ≤ since start now ∧ (since start now).isFinite := by
  rw [since_eq hstart hnow hfinite]
  exact Double.sub_mem hstart hnow hfinite

theorem since_mono (hstart : 0 ≤ start) (hnow : start ≤ now) (hlater : now ≤ later)
    (hfinite : later.isFinite) : since start now ≤ since start later := by
  have hfiniteNow := Double.isFinite_of_le (Double.le_trans hstart hnow) hlater hfinite
  rw [since_eq hstart hnow hfiniteNow, since_eq hstart (Double.le_trans hnow hlater) hfinite]
  exact Double.sub_le_sub_right hstart hnow hlater hfinite

/-! ## Runs of the recorder -/

/-- What the clock says during a call. -/
def RecorderCall.times : RecorderCall → List Double
  | .capture _ _ now later => [now, later]
  | .stop _ now => [now]

/-- What a call captures. -/
def RecorderCall.captured : RecorderCall → List (EventType × Option Value)
  | .capture type data _ _ => [(type, some data)]
  | .stop _ _ => []

/-- The check of the data of an event. -/
def EventType.check : EventType → Check
  | .snapshot => Schema.snapshot.check
  | .activity => Schema.activity.check

/-- A recording before it has ended. -/
def opened (startedAt : String) (initial : Value) (events : List RecordingEvent) : SpaceRecording :=
  ⟨startedAt, 0, some initial, events, "Recording"⟩

/-- The type and the data of an event. -/
def RecordingEvent.content (e : RecordingEvent) : EventType × Option Value := (e.type, e.data)

section Runs

variable (display : Double → String) (start : Double) (startedAt : String) (initial : Value)

/-- Events that have been recorded out of what has been captured. -/
structure Recorded (events : List RecordingEvent) (captured : List (EventType × Option Value)) :
    Prop where
  contents : events.map RecordingEvent.content <+: captured
  times : ∀ e ∈ events, 0 ≤ e.atMs ∧ e.atMs.isFinite
  sorted : events.Pairwise fun e f => e.atMs ≤ f.atMs
  bounded : events ≠ [] →
    (opened startedAt initial events).size display ≤ MAX_RECORDING_BYTES - 4096

/-- A recorder at a time of the clock, before and after it has stopped. -/
inductive Tracks (r : SpaceRecorder) (captured : List (EventType × Option Value)) (now : Double) : Prop
  | active (events : List RecordingEvent) (hactive : r.active = true)
      (hrecording : r.recording = some (opened startedAt initial events))
      (htime : r.startTime = start) (hevents : Recorded display startedAt initial events captured)
      (hall : events.map RecordingEvent.content = captured)
      (hlast : ∀ e ∈ events, e.atMs ≤ since start now)
      (hbytes : r.bytes = (opened startedAt initial events).size display +
        if events = [] then 0 else 1)
  | stopped (durationMs : Double) (events : List RecordingEvent) (endReason : String)
      (hactive : r.active = false)
      (hrecording : r.recording = some ⟨startedAt, durationMs, some initial, events, endReason⟩)
      (hevents : Recorded display startedAt initial events captured)
      (hduration : 0 ≤ durationMs ∧ durationMs.isFinite)
      (hlast : ∀ e ∈ events, e.atMs ≤ durationMs)

variable {display start startedAt initial} {events : List RecordingEvent} {r : SpaceRecorder}
  {captured more : List (EventType × Option Value)}

theorem Recorded.append (h : Recorded display startedAt initial events captured) :
    Recorded display startedAt initial events (captured ++ more) :=
  { h with contents := h.contents.trans (List.prefix_append _ _) }

variable (more) in
theorem Tracks.stop (h : Tracks display start startedAt initial r captured now) (hstart : 0 ≤ start)
    (hnow : start ≤ now) (hlater : now ≤ later) (hfinite : later.isFinite) (reason : String) :
    Tracks display start startedAt initial (r.stop reason later) (captured ++ more) later := by
  unfold SpaceRecorder.stop
  cases h with
  | active events hactive hrecording htime hevents hall hlast hbytes =>
    have helapsed : r.elapsed later = since start later := by
      rw [SpaceRecorder.elapsed, if_pos hactive, htime]
      rfl
    rw [hactive, hrecording]
    refine .stopped (since start later) events reason rfl ?_ hevents.append
      (since_mem hstart (Double.le_trans hnow hlater) hfinite) fun e he =>
        Double.le_trans (hlast e he) (since_mono hstart hnow hlater hfinite)
    dsimp only
    rw [helapsed]
    rfl
  | stopped durationMs events endReason hactive hrecording hevents hduration hlast =>
    rw [hactive]
    exact .stopped durationMs events endReason rfl hrecording hevents.append hduration hlast

theorem Tracks.capture {latest : Double} (h : Tracks display start startedAt initial r captured now)
    (hstart : 0 ≤ start) (hnow : start ≤ now) (hlater : now ≤ later) (hlatest : later ≤ latest)
    (hfinite : latest.isFinite) (type : EventType) (data : Value) :
    Tracks display start startedAt initial (r.capture display type data later latest)
      (captured ++ [(type, some data)]) latest := by
  have hstopped := h.stop [(type, some data)] hstart hnow
    (Double.le_trans hlater hlatest) hfinite "Size limit reached; download the retained recording."
  unfold SpaceRecorder.capture
  cases h with
  | active events hactive hrecording htime hevents hall hlast hbytes =>
    have hfiniteLater := Double.isFinite_of_le (Double.le_trans hstart (Double.le_trans hnow hlater))
      hlatest hfinite
    have helapsed : r.elapsed later = since start later := by
      rw [SpaceRecorder.elapsed, if_pos hactive, htime]
      rfl
    have hsince := since_mem hstart (Double.le_trans hnow hlater) hfiniteLater
    rw [hactive, hrecording]
    dsimp only
    split
    · exact hstopped
    · next hfits =>
      rw [helapsed] at hfits ⊢
      have hsize := size_concat display startedAt 0 initial events
        ⟨since start later, type, some data⟩ "Recording"
      have hbefore : ∀ e ∈ events, e.atMs ≤ since start later := fun e he =>
        Double.le_trans (hlast e he) (since_mono hstart hnow hlater hfiniteLater)
      have hlist : List.map RecordingEvent.content (events ++ [⟨since start later, type, some data⟩]) =
          captured ++ [(type, some data)] := by
        rw [List.map_append, hall]
        rfl
      refine .active (events ++ [⟨since start later, type, some data⟩]) rfl rfl htime
        ⟨hlist ▸ List.prefix_rfl, ?_, ?_, fun _ => ?_⟩ hlist ?_ ?_
      · intro e he
        rcases List.mem_append.mp he with he | he
        · exact hevents.times e he
        · exact (List.mem_singleton.mp he).symm ▸ hsince
      · refine List.pairwise_append.mpr ⟨hevents.sorted, List.pairwise_singleton _ _, ?_⟩
        intro e he f hf
        exact (List.mem_singleton.mp hf).symm ▸ hbefore e he
      · have hopened : (opened startedAt initial (events ++ [⟨since start later, type, some data⟩])).size
            display = _ := hsize
        rw [hopened]
        rw [hbytes] at hfits
        unfold opened at hfits
        omega
      · intro e he
        rcases List.mem_append.mp he with he | he
        · exact Double.le_trans (hbefore e he)
            (since_mono hstart (Double.le_trans hnow hlater) hlatest hfinite)
        · rw [List.mem_singleton.mp he]
          exact since_mono hstart (Double.le_trans hnow hlater) hlatest hfinite
      · have hopened : (opened startedAt initial (events ++ [⟨since start later, type, some data⟩])).size
            display = _ := hsize
        rw [hopened, if_neg (List.append_ne_nil_of_right_ne_nil _ (List.cons_ne_nil _ _))]
        show r.bytes + _ = _
        rw [hbytes]
        unfold opened
        omega
  | stopped durationMs events endReason hactive hrecording hevents hduration hlast =>
    rw [hactive]
    exact .stopped durationMs events endReason hactive hrecording hevents.append hduration hlast

theorem tracks_start {r : SpaceRecorder}
    (h : SpaceRecorder.start display start startedAt initial = .ok r) :
    Tracks display start startedAt initial r [] start ∧
      r.bytes = (opened startedAt initial []).size display ∧ r.bytes ≤ MAX_RECORDING_BYTES := by
  unfold SpaceRecorder.start at h
  dsimp only at h
  split at h
  · cases h
  · next hfits =>
    cases h
    exact ⟨.active [] rfl rfl rfl ⟨List.prefix_rfl, fun _ he => absurd he List.not_mem_nil,
      List.Pairwise.nil, fun hne => absurd rfl hne⟩ rfl (fun _ he => absurd he List.not_mem_nil) rfl,
      rfl, Nat.le_of_not_lt hfits⟩

/-- The calls of a session, at times of a clock that does not go back. -/
theorem tracks_run {calls : List RecorderCall} (h : Tracks display start startedAt initial r captured now)
    (hstart : 0 ≤ start) (hnow : start ≤ now)
    (hclock : (now :: calls.flatMap RecorderCall.times).Pairwise (· ≤ ·))
    (hfinite : ∀ time ∈ calls.flatMap RecorderCall.times, time.isFinite) :
    ∃ last, Tracks display start startedAt initial (r.run display calls)
      (captured ++ calls.flatMap RecorderCall.captured) last := by
  induction calls generalizing r captured now with
  | nil =>
    rw [List.flatMap_nil, List.append_nil]
    exact ⟨now, h⟩
  | cons call calls ih =>
    rw [List.flatMap_cons] at hclock hfinite
    obtain ⟨hle, htimes⟩ := List.pairwise_cons.mp hclock
    obtain ⟨-, hrest, hcross⟩ := List.pairwise_append.mp htimes
    have hcalls := fun time ht => hfinite time (List.mem_append_right _ ht)
    rw [List.flatMap_cons, ← List.append_assoc]
    cases call with
    | capture type data later latest =>
      have hlater : now ≤ later := hle later List.mem_cons_self
      have hlatest : later ≤ latest :=
        (List.pairwise_cons.mp htimes).1 latest List.mem_cons_self
      exact ih (h.capture hstart hnow hlater hlatest
          (hfinite latest (List.mem_cons_of_mem _ List.mem_cons_self)) type data)
        (Double.le_trans hnow (Double.le_trans hlater hlatest))
        (List.pairwise_cons.mpr
          ⟨hcross latest (List.mem_cons_of_mem _ List.mem_cons_self), hrest⟩) hcalls
    | stop reason later =>
      have hlater : now ≤ later := hle later List.mem_cons_self
      exact ih (h.stop _ hstart hnow hlater (hfinite later List.mem_cons_self) reason)
        (Double.le_trans hnow hlater)
        (List.pairwise_cons.mpr ⟨hcross later List.mem_cons_self, hrest⟩) hcalls

end Runs

/-! ## Parsing what has been recorded -/

theorem number_of_mem {x : Double} (p : String) (h : 0 ≤ x) (hfinite : x.isFinite) :
    number (some (.number x)) p = .ok () := by
  have hnot : ¬ x < 0 := (Double.not_lt (Double.isNaN_of_isFinite hfinite) rfl).mpr h
  refine if_neg ?_
  rw [hfinite, decide_eq_false hnot]
  exact Bool.false_ne_true

/-- An object passes if its properties do, wherever they stand. -/
theorem object_of_forall {fields : List (String × Check)} {entries : List (String × Value)} (p : String)
    (h : ∀ field ∈ fields, ∀ q, field.2 (entries.lookup field.1) q = .ok ()) :
    object fields (some (.object entries)) p = .ok () := by
  refine checkAll_eq_ok_iff.mpr fun c hc => ?_
  obtain ⟨field, hfield, rfl⟩ := List.mem_map.mp hc
  exact h field hfield _

theorem RecordingEvent.ofValue_toValue (e : RecordingEvent) : RecordingEvent.ofValue e.toValue = e := by
  obtain ⟨atMs, type, data⟩ := e
  cases type with
  | snapshot =>
    cases data with
    | none => rfl
    | some v => rfl
  | activity =>
    cases data with
    | none => rfl
    | some v => rfl

/-- The type and the time of an event pass. -/
theorem check_toValue (e : RecordingEvent) (p : String) (hnonneg : 0 ≤ e.atMs)
    (hfinite : e.atMs.isFinite) :
    object [("at_ms", number), ("type", choice ["snapshot", "activity"])] (some e.toValue) p =
      .ok () := by
  obtain ⟨atMs, type, data⟩ := e
  refine object_of_forall p (List.forall_mem_cons.mpr
    ⟨fun q => ?_, List.forall_mem_singleton.mpr fun q => ?_⟩)
  · cases data with
    | none => exact number_of_mem q hnonneg hfinite
    | some v => exact number_of_mem q hnonneg hfinite
  · cases type with
    | snapshot => rfl
    | activity => rfl

/-- What is left of the parser when the parts of the recording have passed. -/
theorem parseRecording_of_value {platform : Platform} {snapshot activity : Check} {text : String}
    {value : Value} (hsize : ¬ text.utf8ByteSize > MAX_RECORDING_BYTES)
    (hparse : platform.parse text = some value)
    (hhead : object [("format_version", number), ("view_type", string)] (some value) "recording" =
      .ok ())
    (hversion : asNumber (value.get "format_version") = 1)
    (hview : asString (value.get "view_type") = "space")
    (hcheck : recordingCheck snapshot (some value) "recording" = .ok ()) :
    parseRecording platform snapshot activity text = (do
      checkStartedAt platform (SpaceRecording.ofValue value).startedAt
      checkEvents snapshot activity (SpaceRecording.ofValue value).durationMs 0 0
        (SpaceRecording.ofValue value).events
      .ok (SpaceRecording.ofValue value)) := by
  unfold parseRecording
  rw [if_neg hsize, hparse]
  dsimp only
  rw [hhead, hcheck]
  exact (if_neg (not_not.mpr hversion)).trans (if_neg (not_not.mpr hview))

section Parsing

variable (platform : Platform) (startedAt : String) (durationMs : Double) (initial : Value)
  (events : List RecordingEvent) (endReason : String)

theorem SpaceRecording.ofValue_toValue :
    SpaceRecording.ofValue
        (SpaceRecording.toValue ⟨startedAt, durationMs, some initial, events, endReason⟩) =
      ⟨startedAt, durationMs, some initial, events, endReason⟩ := by
  have hevents : (events.map RecordingEvent.toValue).map RecordingEvent.ofValue = events := by
    rw [List.map_map]
    exact (List.map_congr_left fun e _ => e.ofValue_toValue).trans (List.map_id' events)
  show SpaceRecording.mk startedAt durationMs (some initial)
    ((events.map RecordingEvent.toValue).map RecordingEvent.ofValue) endReason = _
  rw [hevents]

variable {events durationMs} in
/-- Events in the order of their times pass if their data does. -/
theorem checkEvents_of_sorted {previous : Double} (i : ℕ) (hprevious : ∀ e ∈ events, previous ≤ e.atMs)
    (hsorted : events.Pairwise fun e f => e.atMs ≤ f.atMs) (hlast : ∀ e ∈ events, e.atMs ≤ durationMs)
    (hdata : ∀ e ∈ events, ∀ p, e.type.check e.data p = .ok ()) :
    checkEvents Schema.snapshot.check Schema.activity.check durationMs previous i events = .ok () := by
  induction events generalizing previous i with
  | nil => rfl
  | cons e events ih =>
    obtain ⟨hle, hrest⟩ := List.pairwise_cons.mp hsorted
    obtain ⟨hfirst, -⟩ := List.forall_mem_cons.mp hprevious
    obtain ⟨hend, hends⟩ := List.forall_mem_cons.mp hlast
    obtain ⟨hcheck, hchecks⟩ := List.forall_mem_cons.mp hdata
    have hinside : ¬ (e.atMs < previous ∨ durationMs < e.atMs) := by
      obtain ⟨hprev, hnan⟩ := Double.isNaN_of_le hfirst
      obtain ⟨-, hduration⟩ := Double.isNaN_of_le hend
      exact not_or.mpr ⟨(Double.not_lt hnan hprev).mpr hfirst, (Double.not_lt hduration hnan).mpr hend⟩
    have hnext : checkEvents Schema.snapshot.check Schema.activity.check durationMs previous i
        (e :: events) = (do
          e.type.check e.data s!"events[{i}].data"
          checkEvents Schema.snapshot.check Schema.activity.check durationMs e.atMs (i + 1) events) := by
      rw [checkEvents, if_neg hinside]
      cases e.type with
      | snapshot => rfl
      | activity => rfl
    rw [hnext, hcheck]
    exact ih (i + 1) hle hrest hends hchecks

variable {events durationMs initial platform startedAt} in
/-- The text of a recording is accepted, and the recording is returned. -/
theorem parseRecording_of_recorded
    (hsize : (SpaceRecording.mk startedAt durationMs (some initial) events endReason).size
      platform.display ≤ MAX_RECORDING_BYTES)
    (hparse : platform.parse ((SpaceRecording.mk startedAt durationMs (some initial) events
      endReason).toValue.text platform.display) =
        some (SpaceRecording.mk startedAt durationMs (some initial) events endReason).toValue)
    (hdate : (platform.parseDate startedAt).isFinite)
    (hduration : 0 ≤ durationMs ∧ durationMs.isFinite)
    (hinitial : ∀ p, Schema.snapshot.check (some initial) p = .ok ())
    (htimes : ∀ e ∈ events, 0 ≤ e.atMs ∧ e.atMs.isFinite)
    (hsorted : events.Pairwise fun e f => e.atMs ≤ f.atMs) (hlast : ∀ e ∈ events, e.atMs ≤ durationMs)
    (hdata : ∀ e ∈ events, ∀ p, e.type.check e.data p = .ok ()) :
    parseRecording platform Schema.snapshot.check Schema.activity.check
        ((SpaceRecording.mk startedAt durationMs (some initial) events endReason).toValue.text
          platform.display) =
      .ok ⟨startedAt, durationMs, some initial, events, endReason⟩ := by
  have hhead : ∀ p, object [("format_version", number), ("view_type", string)]
      (some (SpaceRecording.toValue ⟨startedAt, durationMs, some initial, events, endReason⟩)) p =
        .ok () := fun p =>
    object_of_forall p (List.forall_mem_cons.mpr
      ⟨fun q => show number (some (.number 1)) q = .ok () from number_of_mem q (by decide) rfl,
        List.forall_mem_singleton.mpr fun q => rfl⟩)
  have hitems : ∀ q, array (object [("at_ms", number), ("type", choice ["snapshot", "activity"])])
      (some (.array (events.map RecordingEvent.toValue))) q = .ok () := by
    refine fun q => checkAll_eq_ok_iff.mpr fun c hc => ?_
    obtain ⟨i, hi, rfl⟩ := List.mem_mapIdx.mp hc
    rw [List.getElem_map]
    obtain ⟨hnonneg, hfinite⟩ := htimes _ (List.getElem_mem (by rwa [List.length_map] at hi))
    exact check_toValue _ _ hnonneg hfinite
  have hcheck : recordingCheck Schema.snapshot.check
      (some (SpaceRecording.toValue ⟨startedAt, durationMs, some initial, events, endReason⟩))
        "recording" = .ok () := by
    refine object_of_forall _ (List.forall_mem_cons.mpr ⟨fun q => rfl, List.forall_mem_cons.mpr
      ⟨fun q => number_of_mem q hduration.1 hduration.2, List.forall_mem_cons.mpr
        ⟨hinitial, List.forall_mem_cons.mpr ⟨hitems, List.forall_mem_singleton.mpr fun q => rfl⟩⟩⟩⟩)
  have hsmall : ¬ ((SpaceRecording.mk startedAt durationMs (some initial) events
      endReason).toValue.text platform.display).utf8ByteSize > MAX_RECORDING_BYTES :=
    Nat.not_lt.mpr hsize
  have hvalue := SpaceRecording.ofValue_toValue startedAt durationMs initial events endReason
  rw [parseRecording_of_value hsmall hparse (hhead _) rfl rfl hcheck, hvalue]
  show (do
    checkStartedAt platform startedAt
    checkEvents Schema.snapshot.check Schema.activity.check durationMs 0 0 events
    Except.ok _) = _
  rw [checkEvents_of_sorted 0 (fun e he => (htimes e he).1) hsorted hlast hdata, checkStartedAt, hdate]
  rfl

end Parsing

/-! ## The recording of a session -/

/-- What has been recorded when a session has ended. -/
structure Replayable (platform : Platform) (bytes : ℕ) (captured : List (EventType × Option Value))
    (recording : SpaceRecording) : Prop where
  contents : recording.events.map RecordingEvent.content <+: captured
  size : recording.events ≠ [] ∨ bytes ≤ MAX_RECORDING_BYTES - 4096 →
    (Value.number recording.durationMs).textSize platform.display +
      (Value.string recording.endReason).textSize platform.display ≤ 4096 →
    recording.size platform.display ≤ MAX_RECORDING_BYTES
  parse : recording.size platform.display ≤ MAX_RECORDING_BYTES →
    platform.parse (recording.toValue.text platform.display) = some recording.toValue →
    parseRecording platform Schema.snapshot.check Schema.activity.check
      (recording.toValue.text platform.display) = .ok recording

/-- A snapshot without processes. -/
def testSnapshot : Value := .object [("processes", .array []), ("fd_relations", .array [])]

/-- A browser for which every text is the recording of one snapshot. -/
def testBrowser : Platform where
  parse _ := some (SpaceRecording.toValue
    ⟨"1970-01-01T00:00:00.000Z", 1, some testSnapshot, [⟨1, .snapshot, some testSnapshot⟩], "Stopped"⟩)
  parseDate _ := 0
  display x := if x < 1 then "0" else "1"

/-- A recorder that starts when the page does. -/
def testRecorder : SpaceRecorder where
  recording := some (opened "1970-01-01T00:00:00.000Z" testSnapshot [])
  active := true
  startTime := 0
  bytes := (opened "1970-01-01T00:00:00.000Z" testSnapshot []).size testBrowser.display

def testCalls : List RecorderCall :=
  [.capture .snapshot testSnapshot 1 1, .stop "Stopped" 1, .capture .snapshot testSnapshot 1 1]

theorem start_testBrowser : SpaceRecorder.start testBrowser.display 0 "1970-01-01T00:00:00.000Z"
    testSnapshot = .ok testRecorder := by
  have hfits : ¬ MAX_RECORDING_BYTES < (opened "1970-01-01T00:00:00.000Z" testSnapshot
    []).toValue.textSize testBrowser.display := by decide +kernel
  unfold SpaceRecorder.start testRecorder SpaceRecording.size
  dsimp only
  unfold opened at hfits ⊢
  rw [if_neg hfits]

theorem check_testSnapshot : Schema.snapshot.check (some testSnapshot) "" = .ok () := by
  rfl

end Procinsh.Space
