import Procinsh.Delivery.Encoder
import Procinsh.Delivery.Merge
import Procinsh.Foundation.Transition
import Procinsh.Hosts.Registry
import Procinsh.Http.Protocol

/-!
# The stream of all hosts

`build_merged_event_response` (`src/http_server/api/merged.rs`) forwards the observations of every
host to one page.  A task for each link, `forward_host_events`, encodes the events of its session
with an encoder of its own and sends the messages through one channel.  A link that replaces another
one gets a new task, while the old one runs until its session fails.  The page (`listenMerged` of
`web/src/space/data.ts`) keeps one baseline for each host name.

One step is what one party does without waiting: an agent connects or disconnects, a task receives
an event or sends one message, the stream yields one event, the page handles one event.  A message
is the value that its text stands for.
-/

namespace Procinsh

/-! ## The events of a session -/

/-- The complete snapshot that an event carries. -/
def MonitorEvent.snapshot? : MonitorEvent → Option Json
  | observation _ | activity _ => none
  | snapshot s | gap _ s => some s

/-- The messages of an event under their names, and the encoder afterwards; `none` when encoding
panics. -/
def encodeSseEvents (event : MonitorEvent) (delivery : SnapshotEncoder) (now : ℕ) :
    Option (List (String × Json) × SnapshotEncoder) :=
  match event with
  | .observation data => some ([("observation", data)], delivery)
  | .activity data => some ([("activity", data)], delivery)
  | .snapshot data =>
    (delivery.encode data false now).map fun encoded => ([("snapshot", encoded.1)], encoded.2)
  | .gap dropped snapshot =>
    (delivery.encode snapshot true now).map fun encoded =>
      ([("gap", .object [("dropped_frames", .int dropped.toNat)]), ("snapshot", encoded.1)], encoded.2)

/-! ## Forwarders -/

/-- Where a snapshot comes from: the number of the forwarder and the position of the snapshot among
those that the forwarder has encoded. -/
structure Origin where
  forwarder : ℕ
  position : ℕ
  deriving DecidableEq, Repr

/-- A message to the page. -/
structure MergedMessage where
  name : String
  data : Json
  /-- Where the snapshot of a snapshot message comes from; the page does not see it. -/
  origin : Origin
  deriving DecidableEq

/-- Adds `"host"` to an object. -/
def attachHostIdentity (host : String) (data : Json) : Json := data.setField "host" (.string host)

/-- A snapshot that has been encoded, and the encoder afterwards. -/
structure Encoded where
  snapshot : Json
  encoder : SnapshotEncoder

/-- Where a forwarder stands. -/
inductive ForwarderStage
  /-- It asks the agent for an observation session. -/
  | observing
  | forwarding
  | ended
  deriving DecidableEq, Repr

/-- A task that forwards the session of one link. -/
structure Forwarder where
  host : String
  stage : ForwarderStage
  delivery : SnapshotEncoder
  /-- The messages of the last event that it has not sent yet. -/
  messages : List MergedMessage
  /-- The snapshots that it has encoded, in order. -/
  encoded : List Encoded

namespace Forwarder

/-- A forwarder that has not received anything. -/
def new (host : String) (stage : ForwarderStage) : Forwarder := ⟨host, stage, .new, [], []⟩

/-- The forwarder with the number `k` encodes an event. -/
def encode (f : Forwarder) (k : ℕ) (event : MonitorEvent) (now : ℕ) : Option Forwarder :=
  (encodeSseEvents event f.delivery now).map fun encoded =>
    { f with
      delivery := encoded.2
      messages := encoded.1.map fun m =>
        ⟨m.1, attachHostIdentity f.host m.2, ⟨k, f.encoded.length⟩⟩
      encoded := f.encoded ++ (event.snapshot?.map fun snapshot => ⟨snapshot, encoded.2⟩).toList }

end Forwarder

/-! ## The page -/

/-- An event of the response. -/
inductive ResponseEvent
  | message (message : MergedMessage)
  | hosts (localName : String) (hosts : List HostSummary)
  | links (links : String)

/-- The names of the hosts that are offline. -/
def offlineHosts (hosts : List HostSummary) : List String :=
  (hosts.filter fun host => !host.status.isOnline).map HostSummary.name

/-- The baseline of a host. -/
structure HostSnapshot where
  snapshot : Json
  /-- The origin of the message that it was merged from. -/
  origin : Origin

/-- The baselines of the page by the host that messages name. -/
structure Page where
  hostSnapshots : OrderedMap (Option Json) HostSnapshot
  /-- Whether the page still reads this stream. -/
  connected : Bool

namespace Page

/-- A page that has just connected. -/
def new : Page := ⟨.empty, true⟩

/-- What a snapshot of the host is merged into. -/
def baseline (page : Page) (host : Option Json) : Json :=
  ((page.hostSnapshots.get? host).map HostSnapshot.snapshot).getD emptySnapshot

/-- What the page merges a snapshot message to, or why it does not accept it. -/
def merge (page : Page) (message : MergedMessage) : Except String Json :=
  mergeSnapshot (page.baseline (message.data.field? "host")) (message.data.removeField "host")

/-- The handler of `snapshot` events: on an error the page connects anew. -/
def handleSnapshot (page : Page) (message : MergedMessage) : Page :=
  match page.merge message with
  | .ok merged =>
    { page with
      hostSnapshots :=
        page.hostSnapshots.set (message.data.field? "host") ⟨merged, message.origin⟩ }
  | .error _ => ⟨.empty, false⟩

/-- The handler of an event. -/
def handle (page : Page) : ResponseEvent → Page
  | .message message => if message.name = "snapshot" then page.handleSnapshot message else page
  | .hosts _ hosts =>
    -- a host that went offline keeps no stale processes
    { page with
      hostSnapshots := page.hostSnapshots.eraseAll
        ((offlineHosts hosts).map fun name => some (.string name)) }
  | .links _ => page

end Page

/-! ## The stream -/

/-- What an agent changes in the registry. -/
inductive RegistryChange
  | insertHost (info : HostInfo) (id handle now : ℕ)
  | disconnected (name : String) (id now : ℕ)
  | prune (now : ℕ)
  deriving DecidableEq, Repr

/-- The registry after a change. -/
def RegistryChange.apply (r : HostRegistry) : RegistryChange → HostRegistry
  | insertHost info id handle now =>
    match r.insertHost info id handle now with
    | .ok (r', _) => r'
    | .error _ => r
  | disconnected name id now => (r.disconnected name id now).1
  | prune now => r.prune now

/-- The capacity of the channel of the forwarders. -/
def mergedCapacity : ℕ := 64

/-- Where the stream stands. -/
inductive StreamStage
  /-- It lists the hosts for the first time. -/
  | start
  /-- It has started the forwarders and is about to yield the list of hosts. -/
  | listing
  | selecting
  deriving DecidableEq, Repr

/-- The stream of all hosts with what it depends on. -/
structure MergedState where
  registry : HostRegistry
  /-- The change of the registry that the stream has seen last. -/
  seen : ℕ
  stage : StreamStage
  /-- The link that each remote host is forwarded from. -/
  forwarded : OrderedMap String ℕ
  forwarders : List Forwarder
  incoming : List MergedMessage
  latest : SortedMap String Json
  links : String
  /-- The events that the stream has yielded, in order. -/
  response : List ResponseEvent
  /-- How many of them the page has handled. -/
  handled : ℕ
  page : Page

/-- One step of one party. -/
inductive MergedAction
  | change (change : RegistryChange)
  /-- The stream starts a forwarder for each link that it does not forward. -/
  | startForwarders
  /-- The stream yields the list of hosts. -/
  | listHosts (now : ℕ)
  /-- The stream yields the next message. -/
  | takeMessage
  /-- The stream correlates the latest snapshots. -/
  | tick
  /-- A forwarder has its session. -/
  | observed (forwarder : ℕ)
  /-- A forwarder gets no session. -/
  | refused (forwarder : ℕ)
  /-- A forwarder receives an event and encodes it. -/
  | receive (forwarder : ℕ) (event : MonitorEvent) (now : ℕ)
  /-- A forwarder sends its next message. -/
  | send (forwarder : ℕ)
  /-- The session of a forwarder is closed or fails. -/
  | finish (forwarder : ℕ)
  /-- The page handles the next event. -/
  | handle
  deriving DecidableEq

namespace MergedState

/-- A stream that has just started, with the forwarder of the local host. -/
def new (registry : HostRegistry) : MergedState where
  registry := registry
  seen := registry.changes
  stage := .start
  forwarded := .empty
  forwarders := [.new registry.localHost.name .forwarding]
  incoming := []
  latest := ∅
  links := ""
  response := []
  handled := 0
  page := .new

/-- Forwards a link unless it is forwarded already. -/
def forwardLink (s : MergedState) (name : String) (link : ℕ) : MergedState :=
  if s.forwarded.get? name = some link then s
  else
    { s with
      forwarded := s.forwarded.set name link
      forwarders := s.forwarders ++ [.new name .observing] }

/-- Forwards the links of all hosts that are online. -/
def forwardLinks (s : MergedState) : MergedState :=
  s.registry.online.foldl (fun s e => s.forwardLink e.1 e.2) s

/-- The state after the forwarder `k` has encoded an event; a panic ends its task. -/
def receive (s : MergedState) (k : ℕ) (f : Forwarder) (event : MonitorEvent) (now : ℕ) :
    MergedState :=
  match f.encode k event now with
  | some f' =>
    { s with
      forwarders := s.forwarders.set k f'
      latest :=
        match event.snapshot? with
        | some snapshot => s.latest.insert f.host snapshot
        | none => s.latest }
  | none => { s with forwarders := s.forwarders.set k { f with stage := .ended } }

variable (correlate : List (String × Json) → Json)

/-- The effect of an action, or `none` when the party that performs it is not at that point;
`correlate` correlates the sockets of the hosts. -/
def step (s : MergedState) : MergedAction → Option MergedState
  | .change change => some { s with registry := change.apply s.registry }
  | .startForwarders =>
    if s.stage = .start ∨ (s.stage = .selecting ∧ s.registry.changes ≠ s.seen) then
      some { s.forwardLinks with seen := s.registry.changes, stage := .listing }
    else none
  | .listHosts now =>
    if s.stage = .listing then
      let registry := s.registry.prune now
      some { s with
        registry := registry
        stage := .selecting
        response := s.response ++ [.hosts registry.localHost.name registry.summaries] }
    else none
  | .takeMessage =>
    match s.stage, s.incoming with
    | .selecting, message :: incoming =>
      some { s with incoming := incoming, response := s.response ++ [.message message] }
    | _, _ => none
  | .tick =>
    if s.stage = .selecting then
      let current := (correlate s.latest.entries).text
      if current ≠ s.links then
        some { s with links := current, response := s.response ++ [.links current] }
      else some s
    else none
  | .observed k =>
    match s.forwarders[k]? with
    | some ⟨host, .observing, delivery, messages, encoded⟩ =>
      some { s with
        forwarders := s.forwarders.set k ⟨host, .forwarding, delivery, messages, encoded⟩ }
    | _ => none
  | .refused k =>
    match s.forwarders[k]? with
    | some ⟨host, .observing, delivery, messages, encoded⟩ =>
      some { s with
        forwarders := s.forwarders.set k ⟨host, .ended, delivery, messages, encoded⟩ }
    | _ => none
  | .receive k event now =>
    match s.forwarders[k]? with
    | some ⟨host, .forwarding, delivery, [], encoded⟩ =>
      some (s.receive k ⟨host, .forwarding, delivery, [], encoded⟩ event now)
    | _ => none
  | .send k =>
    match s.forwarders[k]? with
    | some ⟨host, .forwarding, delivery, message :: messages, encoded⟩ =>
      if s.incoming.length < mergedCapacity then
        some { s with
          forwarders := s.forwarders.set k ⟨host, .forwarding, delivery, messages, encoded⟩
          incoming := s.incoming ++ [message] }
      else none
    | _ => none
  | .finish k =>
    match s.forwarders[k]? with
    | some ⟨host, .forwarding, delivery, [], encoded⟩ =>
      some { s with
        forwarders := s.forwarders.set k ⟨host, .ended, delivery, [], encoded⟩
        latest := s.latest.erase host }
    | _ => none
  | .handle =>
    match s.page.connected, s.response[s.handled]? with
    | true, some event => some { s with handled := s.handled + 1, page := s.page.handle event }
    | _, _ => none

/-! ## What each action does -/

variable {correlate}

/-- The state after an action, with what the action needs to be possible. -/
inductive Effect (correlate : List (String × Json) → Json) (s : MergedState) :
    MergedAction → MergedState → Prop
  | change (change : RegistryChange) :
      Effect correlate s (.change change) { s with registry := change.apply s.registry }
  | startForwarders
      (hstage : s.stage = .start ∨ (s.stage = .selecting ∧ s.registry.changes ≠ s.seen)) :
      Effect correlate s .startForwarders
        { s.forwardLinks with seen := s.registry.changes, stage := .listing }
  | listHosts (now : ℕ) (hstage : s.stage = .listing) :
      Effect correlate s (.listHosts now) { s with
        registry := s.registry.prune now
        stage := .selecting
        response := s.response ++
          [.hosts (s.registry.prune now).localHost.name (s.registry.prune now).summaries] }
  | takeMessage {message : MergedMessage} {incoming : List MergedMessage}
      (hstage : s.stage = .selecting) (hincoming : s.incoming = message :: incoming) :
      Effect correlate s .takeMessage
        { s with incoming := incoming, response := s.response ++ [.message message] }
  | links (hstage : s.stage = .selecting) (hlinks : (correlate s.latest.entries).text ≠ s.links) :
      Effect correlate s .tick { s with
        links := (correlate s.latest.entries).text
        response := s.response ++ [.links (correlate s.latest.entries).text] }
  | sameLinks (hstage : s.stage = .selecting)
      (hlinks : (correlate s.latest.entries).text = s.links) : Effect correlate s .tick s
  | observed {k : ℕ} {f : Forwarder} (hk : s.forwarders[k]? = some f) (hstage : f.stage = .observing) :
      Effect correlate s (.observed k)
        { s with forwarders := s.forwarders.set k { f with stage := .forwarding } }
  | refused {k : ℕ} {f : Forwarder} (hk : s.forwarders[k]? = some f) (hstage : f.stage = .observing) :
      Effect correlate s (.refused k)
        { s with forwarders := s.forwarders.set k { f with stage := .ended } }
  | receive {k : ℕ} {f f' : Forwarder} {event : MonitorEvent} {now : ℕ}
      (hk : s.forwarders[k]? = some f) (hstage : f.stage = .forwarding) (hidle : f.messages = [])
      (hencode : f.encode k event now = some f') :
      Effect correlate s (.receive k event now) { s with
        forwarders := s.forwarders.set k f'
        latest := (event.snapshot?.map (s.latest.insert f.host)).getD s.latest }
  | panic {k : ℕ} {f : Forwarder} {event : MonitorEvent} {now : ℕ}
      (hk : s.forwarders[k]? = some f) (hstage : f.stage = .forwarding) (hidle : f.messages = [])
      (hencode : f.encode k event now = none) :
      Effect correlate s (.receive k event now)
        { s with forwarders := s.forwarders.set k { f with stage := .ended } }
  | send {k : ℕ} {f : Forwarder} {message : MergedMessage} {messages : List MergedMessage}
      (hk : s.forwarders[k]? = some f) (hstage : f.stage = .forwarding)
      (hmessages : f.messages = message :: messages)
      (hcapacity : s.incoming.length < mergedCapacity) :
      Effect correlate s (.send k) { s with
        forwarders := s.forwarders.set k { f with messages := messages }
        incoming := s.incoming ++ [message] }
  | finish {k : ℕ} {f : Forwarder} (hk : s.forwarders[k]? = some f) (hstage : f.stage = .forwarding)
      (hidle : f.messages = []) :
      Effect correlate s (.finish k) { s with
        forwarders := s.forwarders.set k { f with stage := .ended }
        latest := s.latest.erase f.host }
  | handle {e : ResponseEvent} (hconnected : s.page.connected = true)
      (hnext : s.response[s.handled]? = some e) :
      Effect correlate s .handle
        { s with handled := s.handled + 1, page := s.page.handle e }

/-- Every step has its effect. -/
theorem effect_of_step {s t : MergedState} {a : MergedAction} (hstep : s.step correlate a = some t) :
    Effect correlate s a t := by
  cases a with
  | change change =>
    cases hstep
    exact .change change
  | startForwarders =>
    simp only [step] at hstep
    split at hstep
    · next hstage =>
      cases hstep
      exact .startForwarders hstage
    · cases hstep
  | listHosts now =>
    simp only [step] at hstep
    split at hstep
    · next hstage =>
      cases hstep
      exact .listHosts now hstage
    · cases hstep
  | takeMessage =>
    simp only [step] at hstep
    split at hstep
    · next hstage hincoming =>
      cases hstep
      exact .takeMessage hstage hincoming
    · cases hstep
  | tick =>
    simp only [step] at hstep
    split at hstep
    · next hstage =>
      split at hstep
      · next hlinks =>
        cases hstep
        exact .links hstage hlinks
      · next hlinks =>
        cases hstep
        exact .sameLinks hstage (not_not.mp hlinks)
    · cases hstep
  | observed k =>
    simp only [step] at hstep
    split at hstep
    · next hk =>
      cases hstep
      exact .observed hk rfl
    · cases hstep
  | refused k =>
    simp only [step] at hstep
    split at hstep
    · next hk =>
      cases hstep
      exact .refused hk rfl
    · cases hstep
  | receive k event now =>
    simp only [step] at hstep
    split at hstep
    · next hk =>
      cases hstep
      rw [MergedState.receive]
      split
      · next f' hencode =>
        have heffect : Effect correlate s (.receive k event now) _ := .receive hk rfl rfl hencode
        cases hsnapshot : event.snapshot? with
        | none =>
          rw [hsnapshot] at heffect
          exact heffect
        | some snapshot =>
          rw [hsnapshot] at heffect
          exact heffect
      · next hencode => exact .panic hk rfl rfl hencode
    · cases hstep
  | send k =>
    simp only [step] at hstep
    split at hstep
    · next hk =>
      split at hstep
      · next hcapacity =>
        cases hstep
        exact .send hk rfl rfl hcapacity
      · cases hstep
    · cases hstep
  | finish k =>
    simp only [step] at hstep
    split at hstep
    · next hk =>
      cases hstep
      exact .finish hk rfl rfl
    · cases hstep
  | handle =>
    simp only [step] at hstep
    split at hstep
    · next hconnected hnext =>
      cases hstep
      exact .handle hconnected hnext
    · cases hstep

end MergedState

end Procinsh
