import Mathlib.Data.Nat.Notation

/-!
# Helper requests

The closed list of operations the helper answers (`src/ipc/schema.rs`), with the identities and the
file ranges they carry.  Integers have the width of the source's types.
-/

namespace Procinsh

/-- PID plus kernel start time, independently validated by the helper. -/
structure ProcessId where
  pid : Int32
  startTimeTicks : UInt64
  deriving DecidableEq, Repr

/-- The part of one process that a request asks for. -/
inductive ProcessResource
  | observation
  | threads
  | maps
  | environment
  | auxv
  | fds
  deriving DecidableEq, Repr

/-- A range of a verified mapped file (`src/ipc/elf.rs`). -/
structure FileRange where
  offset : UInt64
  length : UInt64
  deriving DecidableEq, Repr

/-- A request to the helper. -/
inductive MonitorRequest
  | processes
  | process (id : ProcessId) (resource : ProcessResource)
  | mappedElf (id : ProcessId) (mappingStart : UInt64) (ranges : List FileRange)
  | observeProcess (id : ProcessId)
  | observeSystem
  | poll (session : UInt64)
  | close (session : UInt64)
  deriving DecidableEq, Repr

/-- `MAX_REQUEST` -/
def maxRequest : ℕ := 1024

end Procinsh
