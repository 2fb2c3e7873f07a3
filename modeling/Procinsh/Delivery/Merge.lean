import Procinsh.Foundation.Json
import Procinsh.Foundation.KeyedDelta

/-!
# Applying full and delta snapshots

`mergeSnapshot` (`web/src/space/snapshot-merge.ts`) applies the messages of a snapshot stream to the
snapshot that the receiver has.  It checks the sequence and the baselines of the memory maps.

An update is the value that its text was parsed to.  Reading a property gives `none` for
`undefined`.  The keys of a `Map` are strings or property values, and its values keep the order in
which their keys were first set.
-/

namespace Procinsh

/-- The error of a property access or an iteration that the value does not have. -/
def typeError : String := "TypeError"

/-- `a ?? b` -/
def orElse (a : Option Json) (b : Json) : Json :=
  match a with
  | none | some .null => b
  | some v => v

/-- Whether a value counts as true in a condition. -/
def truthy : Option Json → Bool
  | none | some .null | some (.bool false) | some (.number (.int 0)) => false
  | some (.string s) => s ≠ ""
  | some _ => true

/-- The items that an array is mapped or iterated over. -/
def arrayItems : Option Json → Except String (List Json)
  | some (.array items) => .ok items
  | _ => .error typeError

/-! ## Numbers in texts -/

/-- The value of a digit, as in hexadecimal. -/
def digitOf (c : Char) : Option ℕ :=
  if '0' ≤ c ∧ c ≤ '9' then some (c.toNat - '0'.toNat)
  else if 'a' ≤ c ∧ c ≤ 'f' then some (c.toNat - 'a'.toNat + 10)
  else if 'A' ≤ c ∧ c ≤ 'F' then some (c.toNat - 'A'.toNat + 10)
  else none

/-- The value of one or more digits in a base. -/
def digitsValue (base : ℕ) (digits : List Char) : Option ℕ :=
  if digits = [] then none
  else digits.foldlM (fun value c =>
    (digitOf c).bind fun d => if d < base then some (value * base + d) else none) 0

/-- `BigInt` of a text. -/
def bigIntOfText (text : List Char) : Option ℤ :=
  match text with
  | [] => some 0
  | '0' :: 'x' :: digits | '0' :: 'X' :: digits => (digitsValue 16 digits).map Int.ofNat
  | '0' :: 'o' :: digits | '0' :: 'O' :: digits => (digitsValue 8 digits).map Int.ofNat
  | '0' :: 'b' :: digits | '0' :: 'B' :: digits => (digitsValue 2 digits).map Int.ofNat
  | '-' :: digits => (digitsValue 10 digits).map fun n => -Int.ofNat n
  | '+' :: digits => (digitsValue 10 digits).map Int.ofNat
  | digits => (digitsValue 10 digits).map Int.ofNat

/-- A text without the white space around it. -/
def trimmed (text : List Char) : List Char :=
  ((text.dropWhile Char.isWhitespace).reverse.dropWhile Char.isWhitespace).reverse

/-- `BigInt`; `none` when it throws. -/
def bigInt : Option Json → Option ℤ
  | some (.string s) => bigIntOfText (trimmed s.toList)
  | some (.number (.int n)) => some n
  | some (.bool b) => some (if b then 1 else 0)
  | _ => none

/-! ## Merging -/

/-- A value in a template; the fields of a process identity are numbers and strings. -/
def templateText : Option Json → String
  | none => "undefined"
  | some (.string s) => s
  | some v => v.text

/-- `key` of `model.ts`: the text that identifies a process. -/
def processKey : Option Json → Except String String
  | none | some .null => .error typeError
  | some id =>
    let host :=
      match id.field? "host" with
      | none => ""
      | some host => templateText (some host) ++ "@"
    .ok (host ++ templateText (id.field? "pid") ++ ":" ++ templateText (id.field? "start_time_ticks"))

/-- The values of a collection under a property, after the removals and insertions of a delta. -/
def applyDelta (property : String) (base : List Json) (delta : Json) :
    Except String (OrderedMap (Option Json) Json) := do
  let remove ← arrayItems (delta.field? "remove")
  let upsert ← arrayItems (delta.field? "upsert")
  .ok (KeyedDelta.applied (fun v => v.field? property)
    (KeyedDelta.keyed (fun v => v.field? property) base) (remove.map some) upsert)

/-- A collection of the previous snapshot with the delta of the update, if there is one. -/
def mergeCollection (base : List Json) (delta : Option Json) : Except String (List Json) :=
  match delta with
  | some d => if truthy delta then (applyDelta "id" base d).map OrderedMap.values
    else .ok (KeyedDelta.keyed (fun v => v.field? "id") base).values
  | none => .ok (KeyedDelta.keyed (fun v => v.field? "id") base).values

/-- The maps in ascending order of their starts; a single map is not compared. -/
def sortByStart (maps : List Json) : Except String (List Json) :=
  if maps.length ≤ 1 then .ok maps
  else
    match maps.mapM fun m => (bigInt (m.field? "start")).map fun start => (start, m) with
    | some keyed => .ok ((keyed.mergeSort fun a b => a.1 ≤ b.1).map Prod.snd)
    | none => .error typeError

/-- The maps of a process of the update. -/
def mergeMaps (old : Option Json) (p : Json) : Except String Json :=
  if truthy (p.field? "maps_delta") then
    match old with
    | none => .error "Missing process maps baseline"
    | some old => do
      let base ← arrayItems (old.field? "maps")
      let entries ← applyDelta "start" base (p.index "maps_delta")
      let maps ← sortByStart entries.values
      .ok (.array maps)
  else .ok (orElse (p.field? "maps") (orElse (old.bind fun old => old.field? "maps") (.array [])))

/-- A process of the update, with the maps and the epoch of its baseline where it has none. -/
def mergeProcess (full : Bool) (known : OrderedMap String Json) (p : Json) : Except String Json := do
  let old ← if full then .ok none else (processKey (p.field? "identity")).map known.get?
  let maps ← mergeMaps old p
  let process := (p.removeField "maps_delta").setField "maps" maps
  if p.field? "maps" = none ∧ p.field? "maps_delta" = none then
    .ok (process.setField "maps_epoch" (orElse (old.bind fun old => old.field? "maps_epoch") (.int 0)))
  else
    match p.field? "maps_epoch" with
    | some epoch => .ok (process.setField "maps_epoch" epoch)
    | none => .ok (process.removeField "maps_epoch")

/-- The kind of an update, checked with its baseline: whether it is full. -/
def checkUpdate (previous update : Json) : Except String Bool :=
  match update.field? "kind" with
  | some (.string "full") => .ok true
  | some (.string "delta") =>
    if previous.field? "sequence" = none ∨
        update.field? "base_sequence" ≠ previous.field? "sequence" then
      .error "Snapshot baseline mismatch"
    else .ok false
  | _ => .error "Unknown snapshot kind"

/-- The processes of the previous snapshot under their keys. -/
def knownProcesses (previous : Json) : Except String (OrderedMap String Json) := do
  let processes ← arrayItems (previous.field? "processes")
  let keys ← processes.mapM fun p => processKey (p.field? "identity")
  .ok (.ofList (keys.zip processes))

/-- A collection: the one of the update, else the previous one, empty for a full update, with the
delta of the update. -/
def mergeField (full : Bool) (update : Json) (field : String) (previous : Option Json) :
    Except String Json := do
  let base ← if full then .ok [] else arrayItems previous
  let merged ← mergeCollection base (update.field? (field ++ "_delta"))
  .ok (orElse (update.field? field) (.array merged))

/-- A field that is always sent whole: the one of the update, else the previous one. -/
def wholeField (previous update : Json) (field : String) : Json :=
  orElse (update.field? field) (orElse (previous.field? field) (.array []))

/-- `mergeSnapshot` -/
def mergeSnapshot (previous update : Json) : Except String Json := do
  let full ← checkUpdate previous update
  let known ← knownProcesses previous
  let fdRelations ← mergeField full update "fd_relations" (previous.field? "fd_relations")
  let deviceHandles ← mergeField full update "device_handles"
    (some (orElse (previous.field? "device_handles") (.array [])))
  let rdmaRelations ← mergeField full update "rdma_relations"
    (some (orElse (previous.field? "rdma_relations") (.array [])))
  let updated ← arrayItems (update.field? "processes")
  let processes ← updated.mapM (mergeProcess full known)
  let rest := (update.removeField "device_handles_delta").removeField "rdma_relations_delta"
  .ok ([("fd_relations", fdRelations), ("rdma_relations", rdmaRelations),
    ("rdma_ports", wholeField previous update "rdma_ports"),
    ("hardware_devices", wholeField previous update "hardware_devices"),
    ("hardware_paths", wholeField previous update "hardware_paths"),
    ("device_handles", deviceHandles), ("processes", .array processes)].foldl
      (fun merged f => merged.setField f.1 f.2) rest)

/-- The snapshot of a receiver that has not received any. -/
def emptySnapshot : Json := .object [("fd_relations", .array []), ("processes", .array [])]

end Procinsh
