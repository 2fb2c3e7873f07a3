import Procinsh.Foundation.SortedMap
import Mathlib.Data.String.Basic

/-!
# Hosts known to a hub

`src/http_server/hosts/identity.rs` and `src/http_server/hosts/registry.rs`: the identity of a host
and the registry of remote hosts by name.  Each function of the registry that takes the lock is a
function on the registry here, with the clock reading as an argument.  A link handle is a number
that names one `AgentLink`; a function that closes a link returns its handle.

`admit` takes the lock twice, once to prune and once to insert, and draws the link id in between.
It is split accordingly: `checkName`, `prune`, `drawLink` and `insertHost`.
-/

namespace Procinsh

/-! ## Identities -/

/-- The identity a host advertises to a hub and shows in the host list. -/
structure HostInfo where
  name : String
  machineId : String
  version : String
  kernel : Option String
  arch : String
  deriving DecidableEq, Repr

/-- The `?host=` value of the merged view. -/
def ALL_HOSTS : String := "all"

/-- Host names are short, URL-safe labels; `ALL_HOSTS` names the merged view. -/
def validHostName (name : String) : Bool :=
  decide (1 ≤ name.utf8ByteSize ∧ name.utf8ByteSize ≤ 63) &&
    (name.toList.all fun c => c.isAlphanum || c = '.' || c = '_' || c = '-') &&
    decide (name ≠ ALL_HOSTS)

/-! ## The registry -/

/-- The most remote hosts a hub lists. -/
def HOST_LIMIT : ℕ := 64

/-- Offline hosts stay listed this long. -/
def OFFLINE_RETENTION_MS : ℕ := 10 * 60 * 1000

/-- Whether a host is connected; `since` is the Unix time in milliseconds of the transition. -/
inductive HostStatus
  | online (since : ℕ)
  | offline (since : ℕ)
  deriving DecidableEq, Repr

/-- Whether a status says that the host is connected. -/
def HostStatus.isOnline : HostStatus → Bool
  | online _ => true
  | offline _ => false

/-- A host list entry. -/
structure HostSummary where
  name : String
  isLocal : Bool
  status : HostStatus
  machineId : String
  version : String
  kernel : Option String
  arch : String
  deriving DecidableEq, Repr

/-- A remote host. -/
structure Remote where
  info : HostInfo
  status : HostStatus
  /-- The current link ID and handle; a replaced link must not mark the host offline. -/
  link : Option (ℕ × ℕ)
  deriving DecidableEq, Repr

/-- Whether a remote host can take requests. -/
inductive RemoteHost
  | online (handle : ℕ)
  | offline
  | unknown
  deriving DecidableEq, Repr

/-- Why an agent is refused. -/
inductive AdmissionError
  | invalidName (name : String)
  | ownName (name : String)
  | otherMachine (name : String)
  | hostLimit
  deriving DecidableEq, Repr

/-- The text of a refusal; `debug` is the standard debug formatting of a string. -/
def AdmissionError.text (debug : String → String) : AdmissionError → String
  | invalidName name => "invalid host name " ++ debug name
  | ownName name => "host name " ++ name ++ " is the hub's own name"
  | otherMachine name => "host name " ++ name ++ " is already connected from another machine"
  | hostLimit => "the hub accepts at most " ++ toString HOST_LIMIT ++ " hosts"

/-- The registry. -/
structure HostRegistry where
  localHost : HostInfo
  started : ℕ
  hosts : SortedMap String Remote
  /-- The last link id drawn. -/
  links : ℕ
  /-- Increments whenever a host is added, removed, or changes status. -/
  changes : ℕ

namespace HostRegistry

/-- A registry without remote hosts. -/
def new (localHost : HostInfo) (started : ℕ) : HostRegistry := ⟨localHost, started, ∅, 0, 0⟩

/-- `remote` -/
def remote (r : HostRegistry) (name : String) : RemoteHost :=
  match r.hosts.get? name with
  | some ⟨_, _, some (_, handle)⟩ => .online handle
  | some ⟨_, _, none⟩ => .offline
  | none => .unknown

/-- Online remote hosts in name order. -/
def online (r : HostRegistry) : List (String × ℕ) :=
  r.hosts.entries.filterMap fun e => e.2.link.map fun link => (e.1, link.2)

/-- Whether a host is listed at the time `now`. -/
def retained (now : ℕ) (host : Remote) : Bool :=
  match host.status with
  | .offline since => now - since < OFFLINE_RETENTION_MS
  | .online _ => true

/-- `prune` -/
def prune (r : HostRegistry) (now : ℕ) : HostRegistry :=
  let hosts := r.hosts.filter fun _ host => retained now host
  if hosts.size ≠ r.hosts.size then { r with hosts := hosts, changes := r.changes + 1 }
  else { r with hosts := hosts }

/-- The entry of the host list for an identity. -/
def summary (info : HostInfo) (isLocal : Bool) (status : HostStatus) : HostSummary :=
  ⟨info.name, isLocal, status, info.machineId, info.version, info.kernel, info.arch⟩

/-- `summaries`, after its pruning: the local host first, then remote hosts in name order. -/
def summaries (r : HostRegistry) : List HostSummary :=
  summary r.localHost true (.online r.started) ::
    r.hosts.entries.map fun e => summary e.2.info false e.2.status

/-- The checks of `admit` before any lock. -/
def checkName (r : HostRegistry) (info : HostInfo) : Option AdmissionError :=
  if !validHostName info.name then some (.invalidName info.name)
  else if info.name = r.localHost.name then some (.ownName info.name)
  else none

/-- The link id that `admit` draws. -/
def drawLink (r : HostRegistry) : HostRegistry × ℕ := ({ r with links := r.links + 1 }, r.links + 1)

/-- The part of `admit` from its second locking on: the registry with the host connected and the
handle of the link to close, or the refusal. -/
def insertHost (r : HostRegistry) (info : HostInfo) (id handle now : ℕ) :
    Except AdmissionError (HostRegistry × Option ℕ) :=
  let insert : HostRegistry × Option ℕ :=
    ({ r with
        hosts := r.hosts.insert info.name ⟨info, .online now, some (id, handle)⟩
        changes := r.changes + 1 },
      (r.hosts.get? info.name).bind fun previous => previous.link.map Prod.snd)
  match r.hosts.get? info.name with
  | some host =>
    if host.link.isSome ∧ host.info.machineId ≠ info.machineId then
      .error (.otherMachine info.name)
    else .ok insert
  | none => if r.hosts.size ≥ HOST_LIMIT then .error .hostLimit else .ok insert

/-- The link id and handle that serve a name. -/
def linkOf (r : HostRegistry) (name : String) : Option (ℕ × ℕ) :=
  (r.hosts.get? name).bind fun host => host.link

/-- Marks `name` offline unless a newer link already replaced link `id`; the handle of the link to
close. -/
def disconnected (r : HostRegistry) (name : String) (id now : ℕ) : HostRegistry × Option ℕ :=
  match r.hosts.get? name with
  | none => (r, none)
  | some host =>
    match host.link with
    | none => (r, none)
    | some (current, handle) =>
      if current ≠ id then (r, none)
      else
        ({ r with
            hosts := r.hosts.insert name { host with link := none, status := .offline now }
            changes := r.changes + 1 }, some handle)

/-- Whether link `id` still serves `name`. -/
def isCurrent (r : HostRegistry) (name : String) (id : ℕ) : Bool :=
  (r.linkOf name).any fun link => link.1 = id

/-! ### What the operations do -/

/-- The entries after pruning are the retained ones. -/
lemma get?_prune (r : HostRegistry) (now : ℕ) (name : String) :
    (r.prune now).hosts.get? name = (r.hosts.get? name).filter (retained now) := by
  have hfilter := r.hosts.get?_filter (fun _ host => retained now host) name
  unfold prune
  dsimp only
  split <;> exact hfilter

/-- Pruning either removes nothing and changes nothing, or counts one change. -/
lemma prune_cases (r : HostRegistry) (now : ℕ) :
    r.prune now = r ∨ (r.prune now).hosts.size < r.hosts.size ∧
      (r.prune now).changes = r.changes + 1 ∧ (r.prune now).links = r.links ∧
      (r.prune now).localHost = r.localHost := by
  by_cases hsize : (r.hosts.filter fun _ host => retained now host).size = r.hosts.size
  · left
    have hsame : (r.hosts.filter fun _ host => retained now host) = r.hosts :=
      SortedMap.filter_eq_self_of_size hsize
    simp [prune, hsame]
  · right
    have hle := r.hosts.size_filter_le fun _ host => retained now host
    simp only [prune, ne_eq, hsize, not_false_eq_true, if_true, and_self, and_true]
    omega

/-- What an admission does: the name was free or its entry offline or of the same machine, there
was room for a new name, the entry is replaced and the link it held is closed. -/
lemma insertHost_eq_ok {r r' : HostRegistry} {info : HostInfo} {id handle now : ℕ}
    {closed : Option ℕ} (h : r.insertHost info id handle now = .ok (r', closed)) :
    r' = { r with
      hosts := r.hosts.insert info.name ⟨info, .online now, some (id, handle)⟩
      changes := r.changes + 1 } ∧
    closed = (r.linkOf info.name).map Prod.snd ∧
    (r.hosts.get? info.name = none → r.hosts.size < HOST_LIMIT) ∧
    (∀ host, r.hosts.get? info.name = some host → host.link.isSome →
      host.info.machineId = info.machineId) := by
  unfold insertHost at h
  dsimp only at h
  cases hget : r.hosts.get? info.name with
  | some host =>
    rw [hget] at h
    dsimp only at h
    split at h
    · cases h
    · next hsame =>
      obtain ⟨rfl, rfl⟩ := Prod.mk.inj (Except.ok.inj h)
      refine ⟨rfl, by rw [linkOf, hget]; rfl, by simp, fun host' hhost hlink => ?_⟩
      obtain rfl := Option.some.inj hhost
      exact not_not.mp fun hne => hsame ⟨hlink, hne⟩
  | none =>
    rw [hget] at h
    dsimp only at h
    split at h
    · cases h
    · next hroom =>
      obtain ⟨rfl, rfl⟩ := Prod.mk.inj (Except.ok.inj h)
      exact ⟨rfl, by rw [linkOf, hget]; rfl, fun _ => not_le.mp hroom, by simp⟩

/-- An online host of another machine keeps its name. -/
lemma insertHost_of_otherMachine {r : HostRegistry} {info : HostInfo} {host : Remote}
    (id handle now : ℕ) (hget : r.hosts.get? info.name = some host) (hlink : host.link.isSome)
    (hmachine : host.info.machineId ≠ info.machineId) :
    r.insertHost info id handle now = .error (.otherMachine info.name) := by
  simp [insertHost, hget, hlink, hmachine]

/-- A new name is refused when the registry is full. -/
lemma insertHost_of_full {r : HostRegistry} {info : HostInfo} (id handle now : ℕ)
    (hget : r.hosts.get? info.name = none) (hfull : HOST_LIMIT ≤ r.hosts.size) :
    r.insertHost info id handle now = .error .hostLimit := by
  simp [insertHost, hget, hfull]

/-- A disconnect of a link that does not serve the name changes nothing. -/
lemma disconnected_of_not_current {r : HostRegistry} {name : String} {id : ℕ} (now : ℕ)
    (h : r.isCurrent name id = false) : r.disconnected name id now = (r, none) := by
  unfold isCurrent linkOf at h
  unfold disconnected
  cases hget : r.hosts.get? name with
  | none => rfl
  | some host =>
    cases hlink : host.link with
    | none => simp [hlink]
    | some link =>
      have hne : link.1 ≠ id := by simpa [hget, hlink] using h
      simp [hlink, hne]

/-- A disconnect of the link that serves the name takes the link away and closes it. -/
lemma disconnected_of_current {r : HostRegistry} {name : String} {id : ℕ} (now : ℕ)
    (h : r.isCurrent name id = true) :
    ∃ host handle, r.hosts.get? name = some host ∧ host.link = some (id, handle) ∧
      r.disconnected name id now = ({ r with
        hosts := r.hosts.insert name { host with link := none, status := .offline now }
        changes := r.changes + 1 }, some handle) := by
  unfold isCurrent linkOf at h
  cases hget : r.hosts.get? name with
  | none => simp [hget] at h
  | some host =>
    cases hlink : host.link with
    | none => simp [hget, hlink] at h
    | some link =>
      have hid : link.1 = id := by simpa [hget, hlink] using h
      subst hid
      exact ⟨host, link.2, rfl, hlink, by simp [disconnected, hget, hlink]⟩

end HostRegistry

end Procinsh
