import Procinsh.Space.Recording

/-!
# The schema of a recording

The checks of a recorded snapshot and of recorded activity (`web/src/space/recording.ts`).  A check
reads the path of a value only for its error, so whether a value passes does not depend on where it
stands: this is `PathFree`, which every combination of checks keeps.
-/

namespace Procinsh.Space.RecordingSchema

/-! ## Combinations of checks -/

def boolean : Check
  | some (.boolean _), _ => .ok ()
  | _, p => invalid p

/-- A check of what is not `null`. -/
def nullable (check : Check) : Check
  | some .null, _ => .ok ()
  | v, p => check v p

/-- A check of what is not undefined. -/
def optional (check : Check) : Check
  | none, _ => .ok ()
  | v, p => check v p

/-- A hexadecimal digit, in lower or upper case. -/
def isHexDigit (c : Char) : Bool :=
  c.isDigit || ('a' ≤ c && c ≤ 'f') || ('A' ≤ c && c ≤ 'F')

/-- `/^0x[\da-f]+$/i` -/
def isHex (s : String) : Bool :=
  match s.toList with
  | '0' :: x :: c :: digits => (x = 'x' || x = 'X') && (c :: digits).all isHexDigit
  | _ => false

/-- `/^\d+$/` -/
def isDecimal (s : String) : Bool := !s.toList.isEmpty && s.toList.all Char.isDigit

def hex : Check
  | some (.string s), p => if isHex s then .ok () else invalid p
  | _, p => invalid p

def inode : Check
  | some (.string s), p => if isDecimal s then .ok () else invalid p
  | _, p => invalid p

/-- An object whose kind says how else it is checked. -/
def tagged (kinds : List String) (check : String → Check) : Check := fun v p => do
  object [("kind", choice kinds)] v p
  check (asString (v.bind (·.get "kind"))) v p

/-- How a check is put together. -/
inductive Schema
  | number
  | string
  | boolean
  | hex
  | inode
  | choice (values : List String)
  | nullable (schema : Schema)
  | optional (schema : Schema)
  | array (schema : Schema)
  | object (fields : List (String × Schema))
  | tagged (kinds : List String) (schema : String → Schema)

namespace Schema

mutual

/-- The check of a schema. -/
def check : Schema → Check
  | number => Space.number
  | string => Space.string
  | boolean => RecordingSchema.boolean
  | hex => RecordingSchema.hex
  | inode => RecordingSchema.inode
  | choice values => Space.choice values
  | nullable schema => RecordingSchema.nullable schema.check
  | optional schema => RecordingSchema.optional schema.check
  | array schema => Space.array schema.check
  | object fields => Space.object (checkFields fields)
  | tagged kinds schema => RecordingSchema.tagged kinds fun kind => (schema kind).check

def checkFields : List (String × Schema) → List (String × Check)
  | [] => []
  | (key, schema) :: fields => (key, schema.check) :: checkFields fields

end

/-! ## The schema of snapshots and activity -/

def identity : Schema :=
  .object [("pid", .number), ("start_time_ticks", .number), ("host", .optional .string)]

def device : Schema := .object [("major", .number), ("minor", .number)]

def memoryMap : Schema :=
  .object [("start", .hex), ("end", .hex), ("file_offset", .hex), ("device", device),
    ("inode", .inode), ("readable", .boolean), ("writable", .boolean), ("executable", .boolean),
    ("private", .boolean), ("pathname", .nullable .string)]

def process : Schema :=
  .object [("identity", identity), ("parent_id", .nullable identity), ("name", .string),
    ("command_line", .nullable (.array .string)), ("uid", .nullable .number),
    ("username", .nullable .string), ("euid", .nullable .number),
    ("effective_username", .nullable .string), ("maps", .array memoryMap), ("maps_epoch", .number),
    ("maps_error", .nullable .string)]

def resource : Schema :=
  .object [("kind", .choice ["pipe", "socket"]), ("device", device), ("inode", .inode)]

def endpoint : Schema :=
  .object [("process_id", identity), ("fd", .number), ("fd_count", .number),
    ("resource", resource), ("kind", .choice ["pipe", "socket", "fifo"]),
    ("access", .choice ["read", "write", "read_write", "unknown"]),
    ("connection_status",
      .optional (.nullable (.choice ["listening", "unconnected", "peer_present", "unknown"])))]

def address : Schema := .nullable (.object [("ip", .string), ("port", .number)])

def socketType : Schema :=
  .object [("kind",
      .choice ["stream", "dgram", "raw", "rdm", "seqpacket", "dccp", "packet", "unknown"]),
    ("code", .optional .number)]

def protocol : Schema :=
  .tagged ["tcp", "udp", "unix", "other"] fun kind =>
    if kind = "tcp" ∨ kind = "udp" then .object [("family", .choice ["ipv4", "ipv6"])]
    else if kind = "unix" then .object [("socket_type", socketType)]
    else .object [("family", .number), ("protocol", .number), ("socket_type", .nullable socketType)]

def link : Schema := .nullable (.object [("speed_gts", .number), ("width", .number)])

def gpu : Schema :=
  .object [("vendor", .string), ("model", .nullable .string), ("uuid", .nullable .string),
    ("minor", .nullable .number), ("drm", .array .string)]

def rdmaFunction : Schema :=
  .object [("name", .string), ("hca_type", .nullable .string), ("fw_ver", .nullable .string)]

def hardwareDevice : Schema :=
  .object [("address", .string), ("parent", .nullable .string),
    ("role", .choice ["host_bridge", "root_port", "switch_port", "endpoint"]),
    ("kind", .nullable (.choice ["gpu", "rdma", "accelerator", "nv_switch"])), ("label", .string),
    ("class", .nullable .string), ("vendor_id", .nullable .string),
    ("device_id", .nullable .string), ("driver", .nullable .string),
    ("numa_node", .nullable .number),
    ("link", .nullable (.object [("current", link), ("max", link)])),
    ("power_state", .nullable .string), ("runtime_status", .nullable .string),
    ("iommu_group", .nullable .number),
    ("bars", .array (.object [("index", .number), ("bytes", .number), ("prefetchable", .boolean)])),
    ("gpu", .nullable gpu), ("rdma", .array rdmaFunction), ("netdevs", .array .string)]

def hardwarePath : Schema :=
  .object [("id", .string), ("a", .string), ("b", .string),
    ("class", .choice ["pix", "pxb", "phb", "node", "sys"]), ("via", .array .string),
    ("bottleneck", link)]

def deviceHandle : Schema :=
  .object [("id", .string), ("process_id", identity), ("device", .string),
    ("kind", .choice ["nvidia", "drm_render", "drm_card", "uverbs", "umad", "accel"]),
    ("fd", .number), ("fd_count", .number)]

def coded (kinds : List String) : Schema :=
  .object [("kind", .choice (kinds ++ ["unknown"])), ("code", .optional .number)]

def rdmaOwner : Schema :=
  .tagged ["process", "kernel", "unknown"] fun kind =>
    if kind = "process" then .object [("process_id", identity)]
    else if kind = "kernel" then .object [("name", .string)]
    else .object [("pid", .nullable .number)]

def rdmaAddress : Schema :=
  .tagged ["inet", "ib", "unknown"] fun kind =>
    if kind = "inet" then .object [("ip", .string), ("port", .number)]
    else if kind = "ib" then .object [("gid", .string), ("service_id", .hex), ("pkey", .number)]
    else .object [("family", .number)]

def rdmaState : Schema :=
  coded ["reset", "init", "rtr", "rts", "sqd", "sqe", "err", "idle", "addr_query",
    "addr_resolved", "route_query", "route_resolved", "connect", "disconnect", "addr_bound",
    "listen", "device_removal", "destroying"]

def rdmaEndpoint : Schema :=
  .object [("owner", rdmaOwner), ("device", .string), ("port", .nullable .number), ("qpn", .number),
    ("qp_type", coded ["smi", "gsi", "rc", "uc", "ud", "raw_ipv6", "raw_ethertype", "raw_packet",
      "xrc_ini", "xrc_tgt", "driver"]),
    ("state", rdmaState)]

def rdmaCm : Schema :=
  .object [("id", .nullable .number), ("owner", rdmaOwner), ("state", rdmaState),
    ("port_space", coded ["ipoib", "tcp", "udp", "ib"]), ("source", .nullable rdmaAddress),
    ("destination", .nullable rdmaAddress)]

def rdmaRelation : Schema :=
  .object [("id", .string), ("endpoint", rdmaEndpoint), ("peer", .nullable rdmaEndpoint),
    ("remote_qpn", .nullable .number),
    ("cm", .nullable rdmaCm),
    ("remote_gid", .nullable .string), ("remote_hostname", .nullable .string), ("label", .string)]

def rdmaPort : Schema :=
  .object [("device", .string), ("port", .number), ("link_layer", .nullable .string),
    ("state", .nullable .string), ("lid", .nullable .number), ("gid", .nullable .string),
    ("rate", .nullable .string)]

def socketEndpoint : Schema :=
  .object [("protocol", protocol),
    ("state", .nullable (.object [("kind", .string), ("code", .optional .number)])),
    ("local", address), ("remote", address), ("path", .nullable .string), ("network_peer", .boolean),
    ("remote_hostname", .nullable .string), ("remote_gid", .optional (.nullable .string))]

def fdRelation : Schema :=
  .object [("id", .string), ("endpoint", endpoint), ("peer", .nullable endpoint), ("label", .string),
    ("candidate", .boolean), ("shared", .boolean), ("socket", .nullable socketEndpoint)]

/-- The check of a snapshot.  RDMA and hardware are absent in old recordings. -/
def snapshot : Schema :=
  .object [("processes", .array process), ("sequence", .optional .number),
    ("rdma_relations", .optional (.array rdmaRelation)), ("rdma_ports", .optional (.array rdmaPort)),
    ("hardware_devices", .optional (.array hardwareDevice)),
    ("hardware_paths", .optional (.array hardwarePath)),
    ("device_handles", .optional (.array deviceHandle)), ("fd_relations", .array fdRelation)]

def sensor : Schema :=
  .object [("state", .choice ["idle", "observing", "unavailable", "error"]),
    ("message", .optional .string)]

def cpuActivity : Schema :=
  .object [("process_id", identity), ("runtime_ns", .number), ("switches", .number),
    ("running_threads", .number), ("cpus", .array .number)]

def ioActivity : Schema :=
  .object [("process_id", identity), ("resource", resource), ("write", .boolean), ("bytes", .number),
    ("count", .number)]

def fileActivity : Schema :=
  .object [("process_id", identity),
    ("file", .object [("device", device), ("inode", .inode), ("generation", .number)]),
    ("path", .nullable .string), ("write", .boolean), ("bytes", .number), ("count", .number)]

def signal : Schema :=
  .object [("timestamp_ns", .number), ("src_pid", .number), ("dst_pid", .number), ("signal", .number),
    ("source_id", identity), ("destination_id", identity)]

/-- The check of the activity of a window of time. -/
def activity : Schema :=
  .object [("status", .object [("active", .boolean), ("ipc", sensor), ("cpu", sensor),
      ("files", sensor)]),
    ("window_ms", .number), ("cpu", .optional (.array cpuActivity)),
    ("ipc", .optional (.array ioActivity)), ("files", .optional (.array fileActivity)),
    ("signals", .optional (.array signal))]

end Schema

/-! ## Paths -/

/-- Whether a value passes does not depend on its path. -/
def PathFree (check : Check) : Prop := ∀ v p q, check v p = .ok () → check v q = .ok ()

theorem checkAll_eq_ok_iff {checks : List (Except String Unit)} :
    checkAll checks = .ok () ↔ ∀ check ∈ checks, check = .ok () := by
  refine ⟨fun h check hcheck => checkAll_eq_ok h hcheck, fun h => ?_⟩
  induction checks with
  | nil => rfl
  | cons check checks ih =>
    obtain ⟨hcheck, hchecks⟩ := List.forall_mem_cons.mp h
    rw [checkAll, hcheck]
    exact ih hchecks

theorem invalid_ne_ok (p : String) : invalid p ≠ .ok () := fun h => by cases h

theorem pathFree_number : PathFree number := by
  intro v p q h
  unfold number at h ⊢
  split at h
  · split at h
    · exact absurd h (invalid_ne_ok _)
    · next hx => exact if_neg hx
  · exact absurd h (invalid_ne_ok _)

theorem pathFree_string : PathFree string := by
  intro v p q h
  unfold string at h ⊢
  split at h
  · rfl
  · exact absurd h (invalid_ne_ok _)

theorem pathFree_boolean : PathFree boolean := by
  intro v p q h
  unfold boolean at h ⊢
  split at h
  · rfl
  · exact absurd h (invalid_ne_ok _)

theorem pathFree_choice (values : List String) : PathFree (choice values) := by
  intro v p q h
  unfold choice at h ⊢
  split at h
  · split at h
    · next hs => exact if_pos hs
    · exact absurd h (invalid_ne_ok _)
  · exact absurd h (invalid_ne_ok _)

theorem pathFree_hex : PathFree hex := by
  intro v p q h
  unfold hex at h ⊢
  split at h
  · split at h
    · next hs => exact if_pos hs
    · exact absurd h (invalid_ne_ok _)
  · exact absurd h (invalid_ne_ok _)

theorem pathFree_inode : PathFree inode := by
  intro v p q h
  unfold inode at h ⊢
  split at h
  · split at h
    · next hs => exact if_pos hs
    · exact absurd h (invalid_ne_ok _)
  · exact absurd h (invalid_ne_ok _)

theorem pathFree_nullable {check : Check} (h : PathFree check) : PathFree (nullable check) := by
  intro v p q hv
  unfold nullable at hv ⊢
  split at hv
  · rfl
  · exact h v p q hv

theorem pathFree_optional {check : Check} (h : PathFree check) : PathFree (optional check) := by
  intro v p q hv
  unfold optional at hv ⊢
  split at hv
  · rfl
  · exact h v p q hv

theorem pathFree_array {check : Check} (h : PathFree check) : PathFree (array check) := by
  intro v p q hv
  unfold array at hv ⊢
  split at hv
  · next items p =>
    rw [checkAll_eq_ok_iff] at hv ⊢
    intro c hc
    obtain ⟨i, hi, rfl⟩ := List.mem_mapIdx.mp hc
    exact h _ _ _ (hv _ (List.mem_mapIdx.mpr ⟨i, hi, rfl⟩))
  · exact absurd hv (invalid_ne_ok _)

theorem pathFree_object {fields : List (String × Check)}
    (h : ∀ field ∈ fields, PathFree field.2) : PathFree (object fields) := by
  intro v p q hv
  unfold object at hv ⊢
  split at hv
  · rw [checkAll_eq_ok_iff] at hv ⊢
    intro c hc
    obtain ⟨field, hfield, rfl⟩ := List.mem_map.mp hc
    exact h field hfield _ _ _ (hv _ (List.mem_map.mpr ⟨field, hfield, rfl⟩))
  · exact absurd hv (invalid_ne_ok _)

theorem pathFree_tagged (kinds : List String) {check : String → Check}
    (h : ∀ kind, PathFree (check kind)) : PathFree (tagged kinds check) := by
  intro v p q hv
  obtain ⟨⟨⟩, hkind, hrest⟩ := exists_of_bind_eq_ok hv
  have hobject : PathFree (object [("kind", choice kinds)]) :=
    pathFree_object (List.forall_mem_singleton.mpr (pathFree_choice kinds))
  unfold tagged
  rw [hobject v p q hkind]
  exact h _ v p q hrest

namespace Schema

mutual

theorem pathFree_check : ∀ schema : Schema, PathFree schema.check
  | number => pathFree_number
  | string => pathFree_string
  | boolean => pathFree_boolean
  | hex => pathFree_hex
  | inode => pathFree_inode
  | choice values => pathFree_choice values
  | nullable schema => pathFree_nullable (pathFree_check schema)
  | optional schema => pathFree_optional (pathFree_check schema)
  | array schema => pathFree_array (pathFree_check schema)
  | object fields => pathFree_object (pathFree_checkFields fields)
  | tagged kinds schema => pathFree_tagged kinds fun kind => pathFree_check (schema kind)

theorem pathFree_checkFields : ∀ fields : List (String × Schema),
    ∀ field ∈ checkFields fields, PathFree field.2
  | [] => fun _ h => absurd h List.not_mem_nil
  | (_, schema) :: fields =>
    List.forall_mem_cons.mpr ⟨pathFree_check schema, pathFree_checkFields fields⟩

end

end Schema

end Procinsh.Space.RecordingSchema
