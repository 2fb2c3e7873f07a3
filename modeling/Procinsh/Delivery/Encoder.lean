import Procinsh.Foundation.Json
import Procinsh.Foundation.KeyedDelta

/-!
# Full and delta snapshots

`SnapshotEncoder` (`src/http_server/delivery.rs`) turns complete snapshots into the messages of one
stream.  A full message carries the snapshot; a delta leaves out what the receiver already has.
The memory maps of each process are left out when they are unchanged, or sent as a delta when that
is shorter, and so are the relations between descriptors, those between queue pairs, and the
device handles.

A message is the value whose text is sent.  A result `none` stands for a panic.  Points of time are
numbers of nanoseconds.
-/

namespace Procinsh

/-- Full/delta selection over complete observations. -/
structure SnapshotEncoder where
  previous : Option Json
  lastFull : Option ℕ
  epochs : OrderedMap String Json
  sequence : UInt64

/-- The time after which a full snapshot is sent again. -/
def fullInterval : ℕ := 60 * 10 ^ 9

/-- `field_identity_key` -/
def fieldIdentityKey (field : String) (value : Json) : String := (value.index field).text

/-- The delta from the old to the current values, when it is shorter than these. -/
def buildArrayDelta (old current : List Json) (field : String) : Option Json :=
  let upsert := KeyedDelta.upsert (fieldIdentityKey field) old current
  let remove := (KeyedDelta.removed (fieldIdentityKey field) old current).map fun v => v.index field
  let delta := Json.object [("remove", .array remove), ("upsert", .array upsert)]
  if delta.textSize + 6 < (Json.array current).textSize then some delta else none

/-- The items of an array; other values have none. -/
def snapshotArrayEntries (value : Json) : List Json := value.asArray?.getD []

namespace SnapshotEncoder

/-- An encoder that has not sent anything. -/
def new : SnapshotEncoder := ⟨none, none, .empty, 0⟩

/-- The part of the loop of `encode` for one process. -/
def encodeProcess (full : Bool) (previous epochs : OrderedMap String Json) (p : Json) :
    Option Json :=
  let id := fieldIdentityKey "identity" p
  let before := previous.get? id
  if full = false ∧ before.any fun old => old.index "maps" = p.index "maps" then do
    let epoch ← epochs.get? id
    let p ← p.assign? "maps_epoch" epoch
    p.remove? "maps"
  else
    let change := before.bind fun before =>
      buildArrayDelta (snapshotArrayEntries (before.index "maps"))
        (snapshotArrayEntries (p.index "maps")) "start"
    match full, change with
    | false, some change => do
      let p ← p.remove? "maps"
      p.assign? "maps_delta" change
    | _, _ => some p

/-- The loop of `encode` over the processes, with the epochs that it records. -/
def encodeProcesses (full : Bool) (previous epochs : OrderedMap String Json) (output : Json) :
    Option (Json × OrderedMap String Json) := do
  -- the mutable borrow adds a missing field
  let output ← if output.field? "processes" = none then output.assign? "processes" .null
    else some output
  match output.index "processes" with
  | .array processes =>
    let encoded ← processes.mapM (encodeProcess full previous epochs)
    let output ← output.assign? "processes" (.array encoded)
    let ids := processes.map (fieldIdentityKey "identity")
    some (output, .ofList (ids.zip (encoded.map fun p => p.index "maps_epoch")))
  | _ => some (output, .empty)

/-- The part of the loop of `encode` for one collection. -/
def encodeCollection (full : Bool) (old output : Json) (field : String) : Option Json :=
  let change := buildArrayDelta (snapshotArrayEntries (old.index field))
    (snapshotArrayEntries (output.index field)) "id"
  match full, change with
  | false, some change => do
    let output ← output.remove? field
    output.assign? (field ++ "_delta") change
  | _, _ => some output

/-- Whether a full snapshot is due. -/
def fullDue (encoder : SnapshotEncoder) (forceFull : Bool) (now : ℕ) : Bool :=
  forceFull || encoder.lastFull.all fun last => fullInterval ≤ now - last

/-- The kind and the sequence numbers of a message. -/
def addSequence (full : Bool) (sequence : UInt64) (output : Json) : Option Json := do
  let output ← output.assign? "kind" (.string (if full then "full" else "delta"))
  let output ← output.assign? "sequence" (.int sequence.toNat)
  if full then some output else output.assign? "base_sequence" (.int (sequence - 1).toNat)

/-- `encode` -/
def encode (encoder : SnapshotEncoder) (snapshot : Json) (forceFull : Bool) (now : ℕ) :
    Option (Json × SnapshotEncoder) := do
  let full := encoder.fullDue forceFull now
  let old := encoder.previous.getD .null
  let previous := KeyedDelta.keyed (fieldIdentityKey "identity")
    (snapshotArrayEntries (old.index "processes"))
  let (output, epochs) ← encodeProcesses full previous encoder.epochs snapshot
  -- RDMA ports are small and always sent whole
  let output ← ["fd_relations", "rdma_relations", "device_handles"].foldlM
    (encodeCollection full old) output
  let sequence := encoder.sequence + 1
  let output ← addSequence full sequence output
  some (output, ⟨some snapshot, if full then some now else encoder.lastFull, epochs, sequence⟩)

end SnapshotEncoder

end Procinsh
