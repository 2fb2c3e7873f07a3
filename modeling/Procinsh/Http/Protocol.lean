import Procinsh.Foundation.Json

/-!
# Replies as the HTTP process handles them

`src/http_server/protocol.rs`: helper replies after conversion to JSON values.  The two variants
that hold a raw acquisition are consumed by the observation processor before a reply leaves the
process, are skipped by serialization, and are left out.
-/

namespace Procinsh

/-- An event of an observation session. -/
inductive MonitorEvent
  | observation (data : Json)
  | snapshot (data : Json)
  | activity (data : Json)
  | gap (dropped : UInt64) (snapshot : Json)
  deriving DecidableEq

/-- A reply to a helper request. -/
inductive MonitorResponse
  | data (value : Json)
  | started (session : UInt64) (initial : MonitorEvent)
  | event (event : Option MonitorEvent) (closed : Bool)
  | closed
  deriving DecidableEq

end Procinsh
