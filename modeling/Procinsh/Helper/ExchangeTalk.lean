import Procinsh.Helper.Exchange
import Procinsh.Ipc.RoundTrip

/-!
# The alternation of requests and answers

The thread of the client and the helper take turns: at every moment the bytes that one side has read, those
in the socket and those that the other side has still to write make up one frame, which is the request of
the call that was sent last or the answer to it.  This is `Talk`; it holds after a shutdown and after
either side has ended, too.
-/

namespace Procinsh.Helper

open Ipc

variable [Target] {σ ι : Type}

/-! ## Frames of requests and answers -/

/-- A request is decoded as it was encoded. -/
theorem framable_of_encode_request {request : MonitorRequest} {bytes : List UInt8}
    (h : encode request maxRequest = .ok bytes) :
    Framable maxRequest bytes ∧ decode MonitorRequest bytes = .ok request := by
  obtain ⟨hne, hlength, -, hdecode⟩ := encode_eq_ok_of_schema (.plain .monitorRequest) h
  exact ⟨⟨hne, hlength.trans (Nat.min_le_left _ _),
    Nat.lt_of_le_of_lt (hlength.trans (Nat.min_le_right _ _)) (by decide)⟩, hdecode trivial⟩

theorem framable_of_encode_reply {response : WireResponse} {bytes : List UInt8}
    (h : encode response maxResponse = .ok bytes) : Framable maxResponse bytes := by
  obtain ⟨hne, hlength, -, -⟩ :=
    encode_eq_ok_of_schema (.result .monitorResponse (.plain .string)) h
  exact ⟨hne, hlength.trans (Nat.min_le_left _ _),
    Nat.lt_of_le_of_lt (hlength.trans (Nat.min_le_right _ _)) (by decide)⟩

/-- What is written for a reply is its encoding, or the encoding of the error that says that it is too
long. -/
theorem encodeReply_eq_some {response : WireResponse} {bytes : List UInt8}
    (h : encodeReply response = some bytes) :
    encode response maxResponse = .ok bytes ∨
      (encode response maxResponse = .error limitExceeded ∧
        encode (.error "monitor response exceeds size limit" : WireResponse) maxResponse = .ok bytes) := by
  unfold encodeReply at h
  split at h
  · next written hwritten => exact Or.inl (hwritten.trans (congrArg _ (Option.some.inj h)))
  · next e he =>
    split at h
    · next hlimit =>
      refine Or.inr ⟨hlimit ▸ he, ?_⟩
      cases hwritten : encode (.error "monitor response exceeds size limit" : WireResponse)
        maxResponse with
      | ok written =>
        rw [hwritten] at h
        exact congrArg _ (Option.some.inj h)
      | error e =>
        rw [hwritten] at h
        cases h
    · cases h

theorem framable_of_encodeReply {response : WireResponse} {bytes : List UInt8}
    (h : encodeReply response = some bytes) : Framable maxResponse bytes := by
  rcases encodeReply_eq_some h with h | ⟨-, h⟩
  · exact framable_of_encode_reply h
  · exact framable_of_encode_reply h

/-! ## The conversation -/

namespace Exchange

def requestOf (s : Exchange σ) (k : ℕ) : Option MonitorRequest := (s.calls[k]?).map (·.request)

/-- The frame of the request of a call. -/
def RequestFrame (s : Exchange σ) (k : ℕ) (f : List UInt8) : Prop :=
  ∃ request bytes, s.requestOf k = some request ∧ encode request maxRequest = .ok bytes ∧
    f = frame bytes

/-- Where the conversation stands. -/
inductive Talk (s : Exchange σ) : Prop
  /-- Every request has been answered. -/
  | idle (hworker : s.worker = .idle) (hcount : s.dispatched.length = s.sent.length)
      (hin : s.toHelper = []) (hout : s.toClient = [])
      (hserving : s.serving = .reading [] ∨ s.serving = .ended)
  /-- A request is being written. -/
  | sending (k : ℕ) (rest f : List UInt8) (hworker : s.worker = .sending k rest) (hrest : rest ≠ [])
      (hlast : s.sent.getLast? = some k) (hframe : s.RequestFrame k f)
      (hcount : s.dispatched.length + 1 = s.sent.length) (hout : s.toClient = [])
      (hserving : (∃ got, s.serving = .reading got ∧ got ++ s.toHelper ++ rest = f) ∨
        s.serving = .ended)
  /-- A request has been written, and the helper has not dispatched it. -/
  | waiting (k : ℕ) (f : List UInt8) (hworker : s.worker = .reading k [])
      (hlast : s.sent.getLast? = some k) (hframe : s.RequestFrame k f)
      (hcount : s.dispatched.length + 1 = s.sent.length) (hout : s.toClient = [])
      (hserving : (∃ got, s.serving = .reading got ∧ got ++ s.toHelper = f) ∨ s.serving = .ended)
      (hmore : s.toHelper ≠ [])
  /-- The request has been dispatched, and the answer is being transferred. -/
  | answering (k : ℕ) (got rest bytes : List UInt8) (request : MonitorRequest) (reply : WireResponse)
      (hworker : s.worker = .reading k got) (hlast : s.sent.getLast? = some k)
      (hcount : s.dispatched.length = s.sent.length) (hin : s.toHelper = [])
      (hdispatched : s.dispatched.getLast? = some (request, reply))
      (hbytes : encodeReply reply = some bytes) (hframe : got ++ s.toClient ++ rest = frame bytes)
      (hserving : (s.serving = .writing rest ∧ rest ≠ []) ∨ (s.serving = .reading [] ∧ rest = []) ∨
        s.serving = .ended)
      (hmore : s.toClient ++ rest ≠ [])
  /-- The request has been dispatched, and the answer cannot be written. -/
  | unanswerable (k : ℕ) (hworker : s.worker = .reading k []) (hlast : s.sent.getLast? = some k)
      (hcount : s.dispatched.length = s.sent.length) (hin : s.toHelper = []) (hout : s.toClient = [])
      (hserving : s.serving = .ended)
  /-- The thread has ended; the helper may still find a request that has been written. -/
  | lost (hworker : s.worker = .ended) (hdown : s.down = true)
      (hserving : s.serving = .ended ∨
        (s.dispatched.length = s.sent.length ∧ s.toHelper = [] ∧
          (s.serving = .reading [] ∨ ∃ rest, s.serving = .writing rest)) ∨
        ∃ k got rest f, s.serving = .reading got ∧ s.sent.getLast? = some k ∧ s.RequestFrame k f ∧
          s.dispatched.length + 1 = s.sent.length ∧ got ++ s.toHelper ++ rest = f)

/-- What a call has been answered, if it has been. -/
def Answered (s : Exchange σ) (k : ℕ) (response : WireResponse) : Prop :=
  ∃ phase, s.phaseOf k = some phase ∧ phase.response? = some response

/-- A reply is decoded as a response. -/
def Decodes (reply response : WireResponse) : Prop :=
  ∃ bytes, encodeReply reply = some bytes ∧ decode WireResponse bytes = .ok response

/-- A response is the decoded reply that was dispatched for the request of a call. -/
def AnswerFor (s : Exchange σ) (k : ℕ) (response : WireResponse) : Prop :=
  ∃ (i : ℕ) (request : MonitorRequest) (reply : WireResponse), s.sent[i]? = some k ∧
    s.dispatched[i]? = some (request, reply) ∧ s.requestOf k = some request ∧ Decodes reply response

/-- The invariant: requests are sent in the order of the queue and dispatched in the same order, and the
answer that a call has got is the decoded answer to its own request. -/
structure Inv (s : Exchange σ) : Prop where
  order : (s.sent ++ s.queue).Pairwise (· < ·)
  known : ∀ k ∈ s.sent ++ s.queue, k < s.calls.length
  requests : s.dispatched.map (fun d => some d.1) = (s.sent.take s.dispatched.length).map s.requestOf
  single : s.sent.length ≤ s.dispatched.length + 1
  answered : ∀ k response, s.Answered k response → s.AnswerFor k response
  talk : s.Talk

/-- Nothing of the conversation has changed, and the requests of the calls are still theirs. -/
structure SameTalk (s t : Exchange σ) : Prop where
  worker : t.worker = s.worker
  toHelper : t.toHelper = s.toHelper
  toClient : t.toClient = s.toClient
  serving : t.serving = s.serving
  sent : t.sent = s.sent
  dispatched : t.dispatched = s.dispatched
  down : s.down = true → t.down = true
  requests : ∀ k request, s.requestOf k = some request → t.requestOf k = some request

theorem SameTalk.frame {s t : Exchange σ} (h : SameTalk s t) {k : ℕ} {f : List UInt8}
    (hframe : s.RequestFrame k f) : t.RequestFrame k f := by
  obtain ⟨request, bytes, hrequest, hrest⟩ := hframe
  exact ⟨request, bytes, h.requests k request hrequest, hrest⟩

theorem SameTalk.talk {s t : Exchange σ} (h : SameTalk s t) (hs : s.Talk) : t.Talk := by
  have hrequest : ∀ {k f}, s.RequestFrame k f → t.RequestFrame k f := h.frame
  obtain ⟨hworker, htoHelper, htoClient, hserving, hsent, hdispatched, hdown, -⟩ := h
  cases hs with
  | idle h1 h2 h3 h4 h5 =>
    refine .idle ?_ ?_ ?_ ?_ ?_
    · rw [hworker, h1]
    · rw [hsent, hdispatched, h2]
    · rw [htoHelper, h3]
    · rw [htoClient, h4]
    · rw [hserving]; exact h5
  | sending k rest f h1 h2 h3 h4 h5 h6 h7 =>
    exact .sending k rest f (hworker ▸ h1) h2 (hsent ▸ h3) (hrequest h4) (by rw [hsent, hdispatched, h5])
      (htoClient ▸ h6) (by rw [hserving, htoHelper]; exact h7)
  | waiting k f h1 h2 h3 h4 h5 h6 h7 =>
    exact .waiting k f (hworker ▸ h1) (hsent ▸ h2) (hrequest h3) (by rw [hsent, hdispatched, h4])
      (htoClient ▸ h5) (by rw [hserving, htoHelper]; exact h6) (htoHelper ▸ h7)
  | answering k got rest bytes request reply h1 h2 h3 h4 h5 h6 h7 h8 h9 =>
    exact .answering k got rest bytes request reply (hworker ▸ h1) (hsent ▸ h2)
      (by rw [hsent, hdispatched, h3]) (htoHelper ▸ h4) (hdispatched ▸ h5) h6 (htoClient ▸ h7)
      (hserving ▸ h8) (htoClient ▸ h9)
  | unanswerable k h1 h2 h3 h4 h5 h6 =>
    exact .unanswerable k (hworker ▸ h1) (hsent ▸ h2) (by rw [hsent, hdispatched, h3]) (htoHelper ▸ h4)
      (htoClient ▸ h5) (hserving ▸ h6)
  | lost h1 h2 h3 =>
    refine .lost (hworker ▸ h1) (hdown h2) ?_
    rw [hserving, hsent, hdispatched, htoHelper]
    rcases h3 with h3 | h3 | ⟨k, got, rest, f, h4, h5, h6, h7⟩
    · exact Or.inl h3
    · exact Or.inr (Or.inl h3)
    · exact Or.inr (Or.inr ⟨k, got, rest, f, h4, h5, hrequest h6, h7⟩)

end Exchange

end Procinsh.Helper
