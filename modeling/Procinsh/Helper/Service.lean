import Procinsh.Http.Protocol
import Procinsh.Ipc.Request

/-!
# Observation sessions of the privileged helper

The session table of `HelperIpcService` (`src/privileged_helper/helper_service.rs`).  What the
collectors answer, whether they have stopped, and which leases have run out is an input of each
dispatch.  Replies carry their data as the HTTP process sees it after conversion.
-/

namespace Procinsh

/-- What one dispatch finds: the clock's view of the leases and the answers of the collectors. -/
structure HelperInput where
  /-- Sessions whose lease has run out. -/
  expired : List UInt64
  /-- Whether the collectors have been stopped. -/
  stopped : Bool
  /-- The answer to a request for data. -/
  collected : Except String Json
  /-- The answer to a subscription. -/
  initial : Except String MonitorEvent
  /-- What a poll of a session finds, and whether the session has ended. -/
  polled : Option MonitorEvent × Bool
  deriving DecidableEq

/-- The session table of the helper. -/
structure HelperService where
  sessions : List UInt64
  nextSession : UInt64
  deriving DecidableEq

namespace HelperService

/-- A helper without sessions. -/
def new : HelperService := ⟨[], 0⟩

/-- Removal of a session. -/
def remove (helper : HelperService) (session : UInt64) : HelperService :=
  { helper with sessions := helper.sessions.filter fun other => other ≠ session }

/-- `expire` -/
def expire (helper : HelperService) (expired : List UInt64) : HelperService :=
  { helper with sessions := helper.sessions.filter fun session => session ∉ expired }

/-- `start`: a new session under the next number. -/
def start (helper : HelperService) (initial : MonitorEvent) :
    HelperService × Except String MonitorResponse :=
  if helper.nextSession.toNat + 1 < UInt64.size then
    (⟨(helper.nextSession + 1) :: helper.sessions, helper.nextSession + 1⟩,
      .ok (.started (helper.nextSession + 1) initial))
  else (helper, .error "session IDs exhausted")

/-- A subscription request: the session that starts with what the collector answers. -/
def subscribe (helper : HelperService) :
    Except String MonitorEvent → HelperService × Except String MonitorResponse
  | .ok initial => helper.start initial
  | .error error => (helper, .error error)

/-- A poll; a session that has ended is removed. -/
def poll (helper : HelperService) (session : UInt64) (polled : Option MonitorEvent × Bool) :
    HelperService × Except String MonitorResponse :=
  if session ∈ helper.sessions then
    (if polled.2 then helper.remove session else helper, .ok (.event polled.1 polled.2))
  else (helper, .error "unknown or expired observation session")

/-- What `dispatch` does with a request after the leases have been checked. -/
def answer (helper : HelperService) (input : HelperInput) :
    MonitorRequest → HelperService × Except String MonitorResponse
  | .close session => (helper.remove session, .ok .closed)
  | request =>
    if input.stopped then (helper, .error "Server is stopping")
    else
      match request with
      | .observeProcess _ | .observeSystem => helper.subscribe input.initial
      | .poll session => helper.poll session input.polled
      | _ => (helper, input.collected.map .data)

/-- `dispatch` -/
def dispatch (helper : HelperService) (input : HelperInput) (request : MonitorRequest) :
    HelperService × Except String MonitorResponse :=
  (helper.expire input.expired).answer input request

/-- What a reply says about the numbering of sessions. -/
structure Numbered (helper : HelperService) (reply : Except String MonitorResponse)
    (helper' : HelperService) : Prop where
  next_le : helper.nextSession.toNat ≤ helper'.nextSession.toNat
  /-- A session that the reply starts has a number that was never used. -/
  started : ∀ session initial, reply = .ok (.started session initial) →
    helper.nextSession.toNat < session.toNat ∧ session.toNat ≤ helper'.nextSession.toNat

/-- A reply that starts nothing and keeps the counter. -/
private lemma numbered_of_not_started {helper helper' : HelperService}
    {reply : Except String MonitorResponse} (hnext : helper'.nextSession = helper.nextSession)
    (hreply : ∀ session initial, reply ≠ .ok (.started session initial)) :
    Numbered helper reply helper' :=
  ⟨by rw [hnext], fun session initial h => absurd h (hreply session initial)⟩

lemma start_numbered (helper : HelperService) (initial : MonitorEvent) :
    Numbered helper (helper.start initial).2 (helper.start initial).1 := by
  unfold start
  split
  · next hroom =>
    have hnext : (helper.nextSession + 1).toNat = helper.nextSession.toNat + 1 := by
      rw [UInt64.toNat_add]
      exact Nat.mod_eq_of_lt hroom
    refine ⟨by simp only [hnext]; omega, fun session initial' h => ?_⟩
    simp only [Except.ok.injEq, MonitorResponse.started.injEq] at h
    obtain ⟨rfl, -⟩ := h
    simp only [hnext]
    omega
  · exact numbered_of_not_started rfl (by simp)

lemma subscribe_numbered (helper : HelperService) (initial : Except String MonitorEvent) :
    Numbered helper (helper.subscribe initial).2 (helper.subscribe initial).1 := by
  cases initial with
  | ok initial => exact helper.start_numbered initial
  | error error => exact numbered_of_not_started rfl (by simp [subscribe])

lemma poll_numbered (helper : HelperService) (session : UInt64)
    (polled : Option MonitorEvent × Bool) :
    Numbered helper (helper.poll session polled).2 (helper.poll session polled).1 := by
  unfold poll
  split
  · refine numbered_of_not_started ?_ (by simp)
    split <;> rfl
  · exact numbered_of_not_started rfl (by simp)

lemma answer_numbered (helper : HelperService) (input : HelperInput) (request : MonitorRequest) :
    Numbered helper (helper.answer input request).2 (helper.answer input request).1 := by
  by_cases hstopped : input.stopped = true
  · cases request with
    | close session => exact numbered_of_not_started rfl (by simp [answer])
    | _ => exact numbered_of_not_started (by simp [answer, hstopped]) (by simp [answer, hstopped])
  · cases request with
    | close session => exact numbered_of_not_started rfl (by simp [answer])
    | observeProcess | observeSystem =>
      simpa [answer, hstopped] using helper.subscribe_numbered input.initial
    | poll session => simpa [answer, hstopped] using helper.poll_numbered session input.polled
    | processes | process | mappedElf =>
      refine numbered_of_not_started (by simp [answer, hstopped]) fun session initial => ?_
      cases hcollected : input.collected <;> simp [answer, hstopped, hcollected, Except.map]

/-- The helper numbers sessions strictly increasing and never uses a number again. -/
lemma dispatch_numbered (helper : HelperService) (input : HelperInput) (request : MonitorRequest) :
    Numbered helper (helper.dispatch input request).2 (helper.dispatch input request).1 := by
  have hanswer := (helper.expire input.expired).answer_numbered input request
  exact ⟨hanswer.next_le, hanswer.started⟩

end HelperService

end Procinsh
