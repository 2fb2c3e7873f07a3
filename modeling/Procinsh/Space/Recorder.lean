import Procinsh.Foundation.Json
import Procinsh.Space.RecordingSchema

/-!
# Recording a session

`SpaceRecorder` (`web/src/space/recording.ts`) keeps the events of a session in memory and counts the bytes
of their texts.  It stops by itself when an event would not leave 4096 bytes for what the end of the
recording adds to the text.
-/

namespace Procinsh.Space

/-! ## Texts -/

section Texts

variable (display : Double → String)

mutual

/-- `JSON.stringify`, with the text of a finite number. -/
def Value.textChars : Value → List Char
  | .null => "null".toList
  | .boolean b => (toString b).toList
  | .number x => if x.isFinite then (display x).toList else "null".toList
  | .string s => Json.stringText s
  | .array items => '[' :: (itemsText items ++ [']'])
  | .object entries => '\x7b' :: (entriesText entries ++ ['\x7d'])

/-- The texts of the items of an array, separated by commas. -/
def itemsText : List Value → List Char
  | [] => []
  | [v] => v.textChars
  | v :: w :: vs => v.textChars ++ ',' :: itemsText (w :: vs)

/-- The texts of the properties of an object, separated by commas. -/
def entriesText : List (String × Value) → List Char
  | [] => []
  | [(key, v)] => Json.stringText key ++ ':' :: v.textChars
  | (key, v) :: e :: es => Json.stringText key ++ ':' :: (v.textChars ++ ',' :: entriesText (e :: es))

end

def Value.text (v : Value) : String := String.ofList (v.textChars display)

/-- `new Blob([JSON.stringify(value)]).size` -/
def Value.textSize (v : Value) : ℕ := (v.text display).utf8ByteSize

end Texts

/-! ## Values of recordings -/

def EventType.name : EventType → String
  | snapshot => "snapshot"
  | activity => "activity"

/-- An event as a value; undefined data is not a property. -/
def RecordingEvent.toValue (e : RecordingEvent) : Value :=
  .object ([("type", .string e.type.name)] ++ (e.data.map fun data => ("data", data)).toList ++
    [("at_ms", .number e.atMs)])

def SpaceRecording.toValue (r : SpaceRecording) : Value :=
  .object ([("format_version", .number 1), ("view_type", .string "space"),
    ("started_at", .string r.startedAt), ("duration_ms", .number r.durationMs)] ++
    (r.initialSnapshot.map fun v => ("initial_snapshot", v)).toList ++
    [("events", .array (r.events.map RecordingEvent.toValue)), ("end_reason", .string r.endReason)])

/-! ## The recorder -/

structure SpaceRecorder where
  recording : Option SpaceRecording
  active : Bool
  startTime : Double
  bytes : ℕ

/-- A call of the recorder, with what the clock says when it asks for the time. -/
inductive RecorderCall
  | capture (type : EventType) (data : Value) (now later : Double)
  | stop (reason : String) (now : Double)

namespace SpaceRecorder

/-- `elapsed` -/
def elapsed (r : SpaceRecorder) (now : Double) : Double :=
  if r.active then Double.max 0 (now - r.startTime)
  else (r.recording.map SpaceRecording.durationMs).getD 0

/-- `start`, which throws if the recording without events is too long. -/
def start (display : Double → String) (now : Double) (startedAt : String) (initial : Value) :
    Except String SpaceRecorder :=
  let recording : SpaceRecording := ⟨startedAt, 0, some initial, [], "Recording"⟩
  let bytes := recording.toValue.textSize display
  if MAX_RECORDING_BYTES < bytes then
    .error "Initial snapshot exceeds the 128 MiB recording limit."
  else .ok ⟨some recording, true, now, bytes⟩

/-- `stop` -/
def stop (r : SpaceRecorder) (reason : String) (now : Double) : SpaceRecorder :=
  match r.active, r.recording with
  | true, some recording =>
    { r with
      recording := some { recording with durationMs := r.elapsed now, endReason := reason }
      active := false }
  | _, _ => { r with active := false }

/-- `capture` -/
def capture (display : Double → String) (r : SpaceRecorder) (type : EventType) (data : Value)
    (now later : Double) : SpaceRecorder :=
  match r.active, r.recording with
  | true, some recording =>
    let next : RecordingEvent := ⟨r.elapsed now, type, some data⟩
    let size := next.toValue.textSize display + 1
    if MAX_RECORDING_BYTES - 4096 < r.bytes + size then
      r.stop "Size limit reached; download the retained recording." later
    else
      { r with
        recording := some { recording with events := recording.events ++ [next] }
        bytes := r.bytes + size }
  | _, _ => r

/-- A call of the recorder. -/
def call (display : Double → String) (r : SpaceRecorder) : RecorderCall → SpaceRecorder
  | .capture type data now later => r.capture display type data now later
  | .stop reason now => r.stop reason now

/-- The calls of a session. -/
def run (display : Double → String) (r : SpaceRecorder) (calls : List RecorderCall) : SpaceRecorder :=
  calls.foldl (call display) r

end SpaceRecorder

end Procinsh.Space
