import Procinsh.Http.Protocol
import Procinsh.Ipc.Request

/-!
# Agent link messages

The messages of `src/http_server/hosts/wire.rs`.  A request id is the value of an unbounded counter
here; in the source it is a `u64` that one link cannot exhaust.
-/

namespace Procinsh

/-- The answer of an agent: a processed reply, or the text of an error. -/
abbrev AgentResponse := Except String MonitorResponse

/-- A message of an agent link. -/
inductive Message
  /-- The agent's first message. -/
  | hello (protocol : UInt32) (host machineId version : String) (kernel : Option String)
      (arch : String) (token : Option String)
  | welcome (protocol : UInt32) (version : String)
  /-- The hub refuses the agent and closes the link. -/
  | reject (reason : String)
  /-- A helper request for the agent; `id` matches the response. -/
  | request (id : ℕ) (request : MonitorRequest)
  | response (id : ℕ) (response : AgentResponse)
  | ping
  | pong
  deriving DecidableEq

end Procinsh
