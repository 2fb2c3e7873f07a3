import Procinsh.Foundation.Checked
import Procinsh.Foundation.Double

/-!
# Reading a recording

`parseRecording` (`web/src/space/recording.ts`) reads the text of a recording and refuses what the
viewer could not replay: another version, a malformed payload, or events that are out of order.
Every check throws an error that names the path of the value it refuses.

`JSON.parse`, `Date.parse` and the text of a number are parameters, and so are the checks of the
payloads.  What an accepted recording guarantees to its replay is `SpaceRecording.Ordered`.
-/

namespace Procinsh.Space

/-- A value as `JSON.parse` yields it. -/
inductive Value
  | null
  | boolean (b : Bool)
  | number (x : Double)
  | string (s : String)
  | array (items : List Value)
  | object (entries : List (String × Value))

/-- Reading a property, which is undefined (`none`) when the object does not have it. -/
def Value.get : Value → String → Option Value
  | object entries, key => entries.lookup key
  | _, _ => none

/-- The number that a property is; another value compares as a not-a-number. -/
def asNumber : Option Value → Double
  | some (.number x) => x
  | _ => .nan

/-- The text that a property is. -/
def asString : Option Value → String
  | some (.string s) => s
  | _ => ""

/-- The items of a property that is an array. -/
def asArray : Option Value → List Value
  | some (.array items) => items
  | _ => []

/-- The kind of an event. -/
inductive EventType
  | snapshot
  | activity
  deriving DecidableEq

/-- A recorded event. -/
structure RecordingEvent where
  atMs : Double
  type : EventType
  data : Option Value

/-- A recording of a session.  Its format version is 1 and its view type is `space`. -/
structure SpaceRecording where
  startedAt : String
  durationMs : Double
  initialSnapshot : Option Value
  events : List RecordingEvent
  endReason : String

/-- An event as the recording's type has it. -/
def RecordingEvent.ofValue (v : Value) : RecordingEvent where
  atMs := asNumber (v.get "at_ms")
  type := if asString (v.get "type") = "snapshot" then .snapshot else .activity
  data := v.get "data"

/-- `value as SpaceRecording`. -/
def SpaceRecording.ofValue (v : Value) : SpaceRecording where
  startedAt := asString (v.get "started_at")
  durationMs := asNumber (v.get "duration_ms")
  initialSnapshot := v.get "initial_snapshot"
  events := (asArray (v.get "events")).map RecordingEvent.ofValue
  endReason := asString (v.get "end_reason")

/-! ### Checks -/

/-- A check of a value at a path of the recording. -/
abbrev Check := Option Value → String → Except String Unit

/-- Refuses the value at a path. -/
def invalid (path : String) : Except String Unit := .error s!"Invalid SPACE recording: {path}"

/-- Checks made one after another until one of them throws. -/
def checkAll : List (Except String Unit) → Except String Unit
  | [] => .ok ()
  | check :: checks => do
    check
    checkAll checks

/-- A finite number that is not negative. -/
def number : Check
  | some (.number x), p => if !x.isFinite || x < 0 then invalid p else .ok ()
  | _, p => invalid p

/-- A text. -/
def string : Check
  | some (.string _), _ => .ok ()
  | _, p => invalid p

/-- One of some texts. -/
def choice (values : List String) : Check
  | some (.string s), p => if s ∈ values then .ok () else invalid p
  | _, p => invalid p

/-- An array whose items pass a check. -/
def array (check : Check) : Check
  | some (.array items), p =>
    checkAll (items.mapIdx fun i item => check (some item) s!"{p}[{i}]")
  | _, p => invalid p

/-- An object whose properties pass their checks; it may have others. -/
def object (fields : List (String × Check)) : Check
  | some (.object entries), p =>
    checkAll (fields.map fun field => field.2 (entries.lookup field.1) s!"{p}.{field.1}")
  | _, p => invalid p

/-! ### The parser -/

/-- What the browser provides. -/
structure Platform where
  /-- `JSON.parse`, `none` where it throws. -/
  parse : String → Option Value
  /-- `Date.parse`. -/
  parseDate : String → Double
  /-- The text of a number in a template. -/
  display : Double → String

/-- The bound on the size of a recording. -/
def MAX_RECORDING_BYTES : ℕ := 128 * 1024 * 1024

section Parser

variable (platform : Platform) (snapshot activity : Check)

/-- The check that the start of the recording is a date. -/
def checkStartedAt (startedAt : String) : Except String Unit :=
  if !(platform.parseDate startedAt).isFinite then invalid "started_at" else .ok ()

/-- The check of the events' times and payloads; `previous` is the time of the event before. -/
def checkEvents (durationMs : Double) : Double → ℕ → List RecordingEvent → Except String Unit
  | _, _, [] => .ok ()
  | previous, i, event :: events =>
    if event.atMs < previous ∨ durationMs < event.atMs then
      invalid s!"events[{i}].at_ms (must be ordered and within duration)"
    else do
      (match event.type with
        | .snapshot => snapshot
        | .activity => activity) event.data s!"events[{i}].data"
      checkEvents durationMs event.atMs (i + 1) events

/-- The check of the recording's own properties. -/
def recordingCheck : Check :=
  object [("started_at", string), ("duration_ms", number), ("initial_snapshot", snapshot),
    ("events", array (object [("at_ms", number), ("type", choice ["snapshot", "activity"])])),
    ("end_reason", string)]

/-- The recording of a text, or the message of the error that is thrown. -/
def parseRecording (text : String) : Except String SpaceRecording :=
  if text.utf8ByteSize > MAX_RECORDING_BYTES then
    .error "Recording exceeds the 128 MiB local replay limit."
  else match platform.parse text with
    | none => .error "Recording is not valid JSON."
    | some value => do
      object [("format_version", number), ("view_type", string)] (some value) "recording"
      if asNumber (value.get "format_version") ≠ 1 then
        let version := platform.display (asNumber (value.get "format_version"))
        .error s!"Unsupported recording format version: {version}"
      else if asString (value.get "view_type") ≠ "space" then
        .error "This viewer requires a SPACE recording."
      else do
        recordingCheck snapshot (some value) "recording"
        let recording := SpaceRecording.ofValue value
        checkStartedAt platform recording.startedAt
        checkEvents snapshot activity recording.durationMs 0 0 recording.events
        .ok recording

end Parser

/-! ### What an accepted recording guarantees -/

/-- The events have finite times that are not negative, and they are in the order of their times. -/
structure SpaceRecording.Ordered (recording : SpaceRecording) : Prop where
  isFinite : ∀ e ∈ recording.events, e.atMs.isFinite
  nonneg : ∀ e ∈ recording.events, 0 ≤ e.atMs
  sorted : recording.events.Pairwise fun e f => e.atMs ≤ f.atMs

theorem checkAll_eq_ok {checks : List (Except String Unit)} (h : checkAll checks = .ok ())
    {check : Except String Unit} (hcheck : check ∈ checks) : check = .ok () := by
  induction checks with
  | nil => cases hcheck
  | cons first checks ih =>
    cases first with
    | error e => cases h
    | ok u =>
      rcases List.mem_cons.mp hcheck with rfl | hrest
      · rfl
      · exact ih h hrest

theorem number_eq_ok {v : Option Value} {p : String} (h : number v p = .ok ()) :
    (asNumber v).isFinite ∧ 0 ≤ asNumber v := by
  unfold number at h
  split at h
  · rename_i x p
    split_ifs at h with hx
    · cases h
    · simp only [Bool.or_eq_true, Bool.not_eq_true', decide_eq_true_eq, not_or,
        Bool.not_eq_false] at hx
      exact ⟨hx.1, (Double.not_lt (Double.isNaN_of_isFinite hx.1) rfl).mp hx.2⟩
  · cases h

theorem array_eq_ok {check : Check} {v : Option Value} {p : String} (h : array check v p = .ok ())
    {item : Value} (hitem : item ∈ asArray v) : ∃ q, check (some item) q = .ok () := by
  unfold array at h
  split at h
  · rename_i items p
    obtain ⟨i, hi, rfl⟩ := List.mem_iff_getElem.mp hitem
    exact ⟨_, checkAll_eq_ok h (List.mem_mapIdx.mpr ⟨i, hi, rfl⟩)⟩
  · cases h

theorem object_eq_ok {fields : List (String × Check)} {v : Value} {p : String}
    (h : object fields (some v) p = .ok ()) {i : ℕ} {key : String} {check : Check}
    (hfield : fields[i]? = some (key, check)) : ∃ q, check (v.get key) q = .ok () := by
  cases v with
  | object entries =>
    exact ⟨_, checkAll_eq_ok h (List.mem_map.mpr ⟨_, List.mem_of_getElem? hfield, rfl⟩)⟩
  | _ => cases h

theorem checkEvents_eq_ok {snapshot activity : Check} {durationMs previous : Double} {i : ℕ}
    {events : List RecordingEvent} (hprevious : previous.isNaN = false)
    (hnan : ∀ e ∈ events, e.atMs.isNaN = false)
    (h : checkEvents snapshot activity durationMs previous i events = .ok ()) :
    (∀ e ∈ events, previous ≤ e.atMs) ∧ events.Pairwise fun e f => e.atMs ≤ f.atMs := by
  induction events generalizing previous i with
  | nil => simp
  | cons event events ih =>
    obtain ⟨hevent, hevents⟩ := List.forall_mem_cons.mp hnan
    rw [checkEvents] at h
    split at h
    · cases h
    · rename_i hinside
      have hle : previous ≤ event.atMs :=
        (Double.not_lt hevent hprevious).mp (not_or.mp hinside).1
      obtain ⟨⟨⟩, -, hrest⟩ := exists_of_bind_eq_ok h
      obtain ⟨hlater, hsorted⟩ := ih hevent hevents hrest
      exact ⟨List.forall_mem_cons.mpr ⟨hle, fun e he => Double.le_trans hle (hlater e he)⟩,
        List.pairwise_cons.mpr ⟨hlater, hsorted⟩⟩

/-- The events of a recording that passes its check have the times that the check allows. -/
theorem number_of_recordingCheck_eq_ok {snapshot : Check} {value : Value} {p : String}
    (h : recordingCheck snapshot (some value) p = .ok ()) {e : RecordingEvent}
    (he : e ∈ (SpaceRecording.ofValue value).events) : e.atMs.isFinite ∧ 0 ≤ e.atMs := by
  obtain ⟨item, hitem, rfl⟩ := List.mem_map.mp he
  obtain ⟨q, hevents⟩ := object_eq_ok h (i := 3) rfl
  obtain ⟨q, hevent⟩ := array_eq_ok hevents hitem
  obtain ⟨q, hnumber⟩ := object_eq_ok hevent (i := 0) rfl
  exact number_eq_ok hnumber

/-- What `parseRecording` accepts is in order. -/
theorem ordered_of_parseRecording_eq_ok {platform : Platform} {snapshot activity : Check}
    {text : String} {recording : SpaceRecording}
    (h : parseRecording platform snapshot activity text = .ok recording) : recording.Ordered := by
  unfold parseRecording at h
  split_ifs at h
  split at h
  · cases h
  rename_i value hvalue
  obtain ⟨⟨⟩, -, h⟩ := exists_of_bind_eq_ok h
  split_ifs at h
  obtain ⟨⟨⟩, hcheck, h⟩ := exists_of_bind_eq_ok h
  obtain ⟨⟨⟩, -, h⟩ := exists_of_bind_eq_ok h
  obtain ⟨⟨⟩, hevents, h⟩ := exists_of_bind_eq_ok h
  cases h
  have hnumber := fun e he => number_of_recordingCheck_eq_ok hcheck (e := e) he
  refine ⟨fun e he => (hnumber e he).1, fun e he => (hnumber e he).2, ?_⟩
  exact (checkEvents_eq_ok rfl (fun e he => Double.isNaN_of_isFinite (hnumber e he).1) hevents).2

end Procinsh.Space
