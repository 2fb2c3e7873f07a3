import Mathlib.Data.Prod.Lex
import Procinsh.Helper.ExchangeFailure

/-!
# Progress of the exchange

While the connection is not broken, the thread or the helper can take a step until every request that is
queued has been answered; see `exists_run_answered`.  Each of these steps decreases the number of requests
that wait, or brings the conversation further, or leaves less bytes to be transferred.
-/

namespace Procinsh.Helper

open Ipc

/-- The call that the thread sends a request for or reads an answer for. -/
def Worker.call : Worker → Option ℕ
  | .sending k _ => some k
  | .reading k _ => some k
  | _ => none

namespace Exchange

variable [Target] {σ ι : Type} {dispatch : σ → MonitorRequest → ι → σ × WireResponse}

/-! ## Calls that wait -/

/-- Whoever waits for an answer is still queued, or its request is being sent or answered. -/
def Awaited (s : Exchange σ) : Prop :=
  ∀ k, s.phaseOf k = some (.waiting none) → k ∈ s.queue ∨ s.worker.call = some k ∨ s.worker = .ended

/-- Nobody begins to wait, and the thread is still at the call. -/
theorem Awaited.of_eq {s t : Exchange σ} (h : s.Awaited) (hqueue : t.queue = s.queue)
    (hcall : t.worker.call = s.worker.call) (hended : s.worker = .ended → t.worker = .ended)
    (hphase : ∀ k, t.phaseOf k = some (.waiting none) → s.phaseOf k = some (.waiting none)) :
    t.Awaited := by
  intro k hk
  rw [hqueue, hcall]
  exact (h k (hphase k hk)).imp_right (Or.imp_right hended)

theorem awaited_of_ended {s : Exchange σ} (h : s.worker = .ended) : s.Awaited :=
  fun _ _ => Or.inr (Or.inr h)

theorem phaseOf_append (s : Exchange σ) (call : ExchangeCall) (queue : List ℕ) {k : ℕ}
    (hk : ({ s with calls := s.calls ++ [call], queue := queue } : Exchange σ).phaseOf k =
      some (.waiting none)) :
    s.phaseOf k = some (.waiting none) ∨ (k = s.calls.length ∧ call.phase = .waiting none) := by
  obtain ⟨c, hc, hphase⟩ := Option.map_eq_some_iff.mp hk
  have hc : (s.calls ++ [call])[k]? = some c := hc
  rcases Nat.lt_or_ge k s.calls.length with hlt | hge
  · rw [List.getElem?_append_left hlt] at hc
    exact Or.inl ((congrArg (Option.map _) hc).trans (congrArg some hphase))
  · rw [List.getElem?_append_right hge, List.getElem?_singleton] at hc
    split at hc
    · next hzero =>
      cases hc
      exact Or.inr ⟨by omega, hphase⟩
    · cases hc

/-- Nobody waits for a call that something was handed to. -/
theorem phaseOf_deliver {s : Exchange σ} {k j : ℕ} {delivery : Delivery}
    (hj : (s.deliver k delivery).phaseOf j = some (.waiting none)) :
    j ≠ k ∧ s.phaseOf j = some (.waiting none) := by
  unfold deliver at hj
  split at hj
  · by_cases hjk : j = k
    · subst hjk
      rw [phaseOf_setPhase_self] at hj
      obtain ⟨_, -, hphase⟩ := Option.map_eq_some_iff.mp hj
      cases hphase
    · rw [phaseOf_setPhase_of_ne s _ (Ne.symm hjk)] at hj
      exact ⟨hjk, hj⟩
  · next hnot =>
    refine ⟨?_, hj⟩
    rintro rfl
    exact hnot hj

theorem awaited_takeRequest {s : Exchange σ} (h : s.Awaited) {k : ℕ} {queue : List ℕ}
    (request : MonitorRequest) (hworker : s.worker = .idle) (hqueue : s.queue = k :: queue) :
    (s.takeRequest k queue request).Awaited := by
  have hplace : ∀ j, s.phaseOf j = some (.waiting none) → j = k ∨ j ∈ queue := by
    intro j hj
    rcases h j hj with hmem | hcall | hended
    · exact List.mem_cons.mp (hqueue ▸ hmem)
    · rw [hworker] at hcall
      cases hcall
    · cases hworker.symm.trans hended
  unfold takeRequest
  dsimp only
  split
  · next hskip =>
    intro j hj
    rcases hplace j hj with rfl | hmem
    · have hgone := hskip.1
      unfold isGone at hgone
      rw [show ({ s with queue := queue } : Exchange σ).phaseOf j = _ from hj] at hgone
      cases hgone
    · exact Or.inl hmem
  · split
    · intro j hj
      rcases hplace j hj with rfl | hmem
      · exact Or.inr (Or.inl rfl)
      · exact Or.inl hmem
    · exact awaited_of_ended rfl

theorem awaited_receive {s : Exchange σ} (h : s.Awaited) {k : ℕ} {before : List UInt8}
    (hworker : s.worker = .reading k before) (got : List UInt8) : (s.receive k got).Awaited := by
  unfold receive
  split
  · refine h.of_eq rfl ?_ ?_ fun j hj => hj
    · rw [hworker]
      rfl
    · intro hended
      cases hworker.symm.trans hended
  · exact awaited_of_ended rfl
  · split
    · intro j hj
      obtain ⟨hjk, hj⟩ := phaseOf_deliver (s := s) hj
      rcases h j hj with hmem | hcall | hended
      · exact Or.inl ((queue_deliver s k _).symm ▸ hmem)
      · rw [hworker] at hcall
        exact absurd (Option.some.inj hcall).symm hjk
      · cases hworker.symm.trans hended
    · exact awaited_of_ended rfl

theorem awaited_step (s : Exchange σ) (a : ExchangeAction ι) (t : Exchange σ) (h : s.Awaited)
    (hstep : s.step dispatch a = some t) : t.Awaited := by
  cases stepped_of_step hstep with
  | queued _ _ =>
    intro k hk
    rcases phaseOf_append s _ _ hk with hk | ⟨rfl, -⟩
    · exact (h k hk).imp_left (List.mem_append_left _)
    · exact Or.inl (List.mem_append_right _ (List.mem_singleton_self _))
  | refused hcall =>
    intro k hk
    rcases phaseOf_append s _ s.queue hk with hk | ⟨-, hwaiting⟩
    · exact h k hk
    · cases hcall.symm.trans hwaiting
  | unchanged => exact h
  | @phase k delivered new down hold hnew hdown =>
    refine h.of_eq rfl rfl id fun j hj => ?_
    by_cases hjk : j = k
    · subst hjk
      have hj : (s.setPhase j new).phaseOf j = some (.waiting none) := hj
      rw [phaseOf_setPhase_self, hold] at hj
      rcases hnew with rfl | ⟨delivery, rfl, -⟩
      · cases hj
      · cases hj
    · exact (phaseOf_setPhase_of_ne s new (Ne.symm hjk)).symm.trans hj
  | dequeue hworker hqueue _ => exact awaited_takeRequest h _ hworker hqueue
  | @clientWrite k n rest hworker _ _ _ =>
    refine h.of_eq rfl ?_ ?_ fun j hj => hj
    · dsimp only
      rw [hworker]
      split
      · rfl
      · rfl
    · intro hended
      cases hworker.symm.trans hended
  | @clientRead k n got hworker _ _ =>
    exact awaited_receive (s := { s with toClient := s.toClient.drop n }) h hworker _
  | clientFail _ => exact awaited_of_ended rfl
  | @helperRead n got input _ _ _ =>
    have hkeeps := queue_worker_serve dispatch { s with toHelper := s.toHelper.drop n }
      input (got ++ s.toHelper.take n)
    refine h.of_eq hkeeps.1 (congrArg _ hkeeps.2) hkeeps.2.trans fun j hj => ?_
    rwa [phaseOf, calls_serve] at hj
  | helperWrite _ _ _ _ => exact h
  | helperFail => exact h

/-! ## Transfers -/

/-- The steps of the thread and of the helper that transfer requests and answers. -/
def isTransfer : ExchangeAction ι → Bool
  | .dequeue | .clientWrite _ | .clientRead _ | .helperRead _ _ | .helperWrite _ => true
  | _ => false

/-- How far the conversation is from its end. -/
def stage (s : Exchange σ) : ℕ :=
  match s.worker with
  | .idle => 0
  | _ => if s.dispatched.length < s.sent.length then 2 else 1

/-- The bytes that have to be transferred, those that have not been written twice. -/
def bytesLeft (s : Exchange σ) : ℕ :=
  (match s.worker with
    | .sending _ rest => 2 * rest.length
    | _ => 0) + s.toHelper.length +
  (match s.serving with
    | .writing rest => 2 * rest.length
    | _ => 0) + s.toClient.length

def remaining (s : Exchange σ) : ℕ ×ₗ ℕ ×ₗ ℕ := toLex (s.queue.length, toLex (s.stage, s.bytesLeft))

/-- A transfer: callers only get answers. -/
structure Advances (s t : Exchange σ) : Prop where
  unbroken : ¬ t.Broken
  less : t.remaining < s.remaining
  requests : ∀ k, t.requestOf k = s.requestOf k
  waits : ∀ k, s.phaseOf k = some (.waiting none) → t.phaseOf k = some (.waiting none) ∨
    ∃ response, t.phaseOf k = some (.waiting (some (.response response)))
  keeps : ∀ k response, s.phaseOf k = some (.waiting (some (.response response))) →
    t.phaseOf k = some (.waiting (some (.response response)))

theorem Advances.of_calls {s t : Exchange σ} (hcalls : t.calls = s.calls) (hunbroken : ¬ t.Broken)
    (hless : t.remaining < s.remaining) : Advances s t := by
  have hphase : ∀ k, t.phaseOf k = s.phaseOf k := fun k => by rw [phaseOf, hcalls]; rfl
  refine ⟨hunbroken, hless, fun k => ?_, fun k hk => ?_, fun k response hk => ?_⟩
  · rw [requestOf, hcalls]
    rfl
  · rw [hphase]
    exact Or.inl hk
  · rw [hphase]
    exact hk

theorem remaining_lt_of_queue {s t : Exchange σ} (h : t.queue.length < s.queue.length) :
    t.remaining < s.remaining := Prod.Lex.toLex_lt_toLex.mpr (Or.inl h)

theorem remaining_lt_of_stage {s t : Exchange σ} (hqueue : t.queue = s.queue)
    (h : t.stage < s.stage) : t.remaining < s.remaining :=
  Prod.Lex.toLex_lt_toLex.mpr
    (Or.inr ⟨congrArg List.length hqueue, Prod.Lex.toLex_lt_toLex.mpr (Or.inl h)⟩)

theorem remaining_lt_of_bytes {s t : Exchange σ} (hqueue : t.queue = s.queue)
    (hstage : t.stage = s.stage) (h : t.bytesLeft < s.bytesLeft) : t.remaining < s.remaining :=
  Prod.Lex.toLex_lt_toLex.mpr
    (Or.inr ⟨congrArg List.length hqueue, Prod.Lex.toLex_lt_toLex.mpr (Or.inr ⟨hstage, h⟩)⟩)

/-- Nothing has failed. -/
theorem not_broken {s : Exchange σ} :
    ¬ s.Broken ↔ s.down = false ∧ s.worker ≠ .ended ∧ s.serving ≠ .ended := by
  rw [Broken, not_or, not_or, Bool.not_eq_true]

variable (dispatch) in
/-- The thread takes the next request. -/
theorem advances_dequeue {s : Exchange σ} (hinv : s.Inv) (hunbroken : ¬ s.Broken)
    (hworker : s.worker = .idle) (hqueue : s.queue ≠ [])
    (hencode : ∀ k request, s.requestOf k = some request →
      ∃ bytes, encode request maxRequest = .ok bytes) :
    ∃ t, s.step dispatch .dequeue = some t ∧ Advances s t := by
  obtain ⟨k, queue, hcons⟩ := List.exists_cons_of_ne_nil hqueue
  have hk : k < s.calls.length :=
    hinv.known k (List.mem_append_right _ (hcons ▸ List.mem_cons_self))
  have hcall : s.calls[k]? = some (s.calls[k]) := List.getElem?_eq_getElem hk
  obtain ⟨bytes, hbytes⟩ := hencode k _ (congrArg (Option.map _) hcall)
  obtain ⟨hdown, -, hserving⟩ := not_broken.mp hunbroken
  refine ⟨s.takeRequest k queue (s.calls[k]).request, ?_, ?_⟩
  · dsimp only [step]
    rw [hworker, hcons]
    dsimp only
    rw [hcall]
    rfl
  · have hless : queue.length < s.queue.length := by
      rw [hcons]
      exact Nat.lt_succ_self _
    unfold takeRequest
    dsimp only
    split
    · exact .of_calls rfl hunbroken (remaining_lt_of_queue hless)
    · rw [hbytes]
      refine .of_calls rfl ?_ (remaining_lt_of_queue hless)
      exact not_broken.mpr ⟨hdown, Worker.noConfusion, hserving⟩

theorem stage_of_lt {s : Exchange σ} (hworker : s.worker ≠ .idle)
    (h : s.dispatched.length < s.sent.length) : s.stage = 2 := by
  unfold stage
  split
  · next hidle => exact absurd hidle hworker
  · exact if_pos h

theorem stage_of_eq {s : Exchange σ} (hworker : s.worker ≠ .idle)
    (h : s.dispatched.length = s.sent.length) : s.stage = 1 := by
  unfold stage
  split
  · next hidle => exact absurd hidle hworker
  · exact if_neg (Nat.not_lt_of_le (Nat.le_of_eq h.symm))

variable (dispatch) in
/-- The thread writes a byte of a request. -/
theorem advances_clientWrite {s : Exchange σ} (hunbroken : ¬ s.Broken) {k : ℕ} {rest : List UInt8}
    (hworker : s.worker = .sending k rest) (hrest : rest ≠ [])
    (hcount : s.dispatched.length + 1 = s.sent.length) :
    ∃ t, s.step dispatch (.clientWrite 1) = some t ∧ Advances s t := by
  obtain ⟨hdown, -, hserving⟩ := not_broken.mp hunbroken
  have hpos : 1 ≤ rest.length := List.length_pos_of_ne_nil hrest
  have hguard : ¬ s.down ∧ 0 < 1 ∧ 1 ≤ rest.length :=
    ⟨by rw [hdown]; exact Bool.false_ne_true, Nat.one_pos, hpos⟩
  have hstep : s.step dispatch (.clientWrite 1) = some { s with
      toHelper := s.toHelper ++ rest.take 1
      worker := if 1 = rest.length then .reading k [] else .sending k (rest.drop 1) } := by
    dsimp only [step]
    rw [hworker]
    exact if_pos hguard
  have hlt : s.dispatched.length < s.sent.length := by omega
  have hidle : s.worker ≠ .idle := fun hidle => by cases hworker.symm.trans hidle
  refine ⟨_, hstep, .of_calls rfl (not_broken.mpr ⟨hdown, ?_, hserving⟩)
    (remaining_lt_of_bytes rfl ?_ ?_)⟩
  · dsimp only
    split
    · exact Worker.noConfusion
    · exact Worker.noConfusion
  · rw [stage_of_lt hidle hlt]
    refine stage_of_lt ?_ hlt
    dsimp only
    split
    · exact Worker.noConfusion
    · exact Worker.noConfusion
  · unfold bytesLeft
    rw [hworker]
    dsimp only
    rw [List.length_append, List.length_take, Nat.min_eq_left hpos]
    by_cases hall : 1 = rest.length
    · rw [if_pos hall]
      dsimp only
      omega
    · rw [if_neg hall]
      dsimp only
      rw [List.length_drop]
      omega

omit [Target] in
theorem wanted_of_lacks {limit n : ℕ} {got : List UInt8} (h : frameStatus limit got = .lacks n) :
    wanted limit got = n := by
  rw [wanted, h]

/-- The helper reads a byte of a request, and dispatches the request if that was the last. -/
theorem advances_helperRead {s : Exchange σ} (hunbroken : ¬ s.Broken) (input : ι) {k : ℕ}
    {got f : List UInt8} (hworker : s.worker = .reading k []) (hframe : s.RequestFrame k f)
    (hcount : s.dispatched.length + 1 = s.sent.length) (hserving : s.serving = .reading got)
    (hbytes : got ++ s.toHelper = f) (hmore : s.toHelper ≠ [])
    (hreply : ∀ helper request input, ∃ response,
      Decodes (dispatch helper request input).2 response) :
    ∃ t, s.step dispatch (.helperRead 1 input) = some t ∧ Advances s t := by
  obtain ⟨hdown, hended, -⟩ := not_broken.mp hunbroken
  have hpos : 1 ≤ s.toHelper.length := List.length_pos_of_ne_nil hmore
  have hwanted : 1 ≤ wanted maxRequest got := by
    obtain ⟨request, bytes, -, hencode, rfl⟩ := hframe
    rcases frameStatus_of_append (framable_of_encode_request hencode).1 hbytes with
      ⟨hnil, -⟩ | ⟨-, n, hn, -, hstatus⟩
    · exact absurd hnil hmore
    · rw [wanted_of_lacks hstatus]
      exact hn
  have hstep : s.step dispatch (.helperRead 1 input) =
      some (({ s with toHelper := s.toHelper.drop 1 } : Exchange σ).serve dispatch input
        (got ++ s.toHelper.take 1)) := by
    dsimp only [step]
    rw [hserving]
    exact if_pos ⟨Nat.one_pos, hpos, hwanted⟩
  have hidle : s.worker ≠ .idle := fun hidle => by cases hworker.symm.trans hidle
  have hall : got ++ s.toHelper.take 1 ++ s.toHelper.drop 1 = f := by
    rw [List.append_assoc, List.take_append_drop, hbytes]
  refine ⟨_, hstep, ?_⟩
  rcases serve_of_frame dispatch { s with toHelper := s.toHelper.drop 1 } input hframe hall with
    ⟨-, request, -, hserve⟩ | ⟨-, hserve⟩
  · obtain ⟨response, bytes, hencoded, -⟩ := hreply s.helper request input
    rw [hserve]
    refine .of_calls rfl (not_broken.mpr ⟨hdown, hended, ?_⟩) (remaining_lt_of_stage rfl ?_)
    · unfold answer
      dsimp only
      rw [hencoded]
      exact Serving.noConfusion
    · rw [stage_of_lt hidle (by omega)]
      refine Nat.lt_of_le_of_lt (Nat.le_of_eq (stage_of_eq hidle ?_)) Nat.one_lt_two
      exact (length_dispatched_answer _ input request).trans hcount
  · rw [hserve]
    refine .of_calls rfl (not_broken.mpr ⟨hdown, hended, Serving.noConfusion⟩)
      (remaining_lt_of_bytes rfl rfl ?_)
    unfold bytesLeft
    rw [hserving]
    dsimp only
    rw [List.length_drop]
    omega

variable (dispatch) in
/-- The helper writes a byte of an answer. -/
theorem advances_helperWrite {s : Exchange σ} (hunbroken : ¬ s.Broken) {rest : List UInt8}
    (hserving : s.serving = .writing rest) (hrest : rest ≠ []) :
    ∃ t, s.step dispatch (.helperWrite 1) = some t ∧ Advances s t := by
  obtain ⟨hdown, hended, -⟩ := not_broken.mp hunbroken
  have hpos : 1 ≤ rest.length := List.length_pos_of_ne_nil hrest
  have hguard : ¬ s.down ∧ 0 < 1 ∧ 1 ≤ rest.length :=
    ⟨by rw [hdown]; exact Bool.false_ne_true, Nat.one_pos, hpos⟩
  have hstep : s.step dispatch (.helperWrite 1) = some { s with
      toClient := s.toClient ++ rest.take 1
      serving := if 1 = rest.length then .reading [] else .writing (rest.drop 1) } := by
    dsimp only [step]
    rw [hserving]
    exact if_pos hguard
  refine ⟨_, hstep, .of_calls rfl (not_broken.mpr ⟨hdown, hended, ?_⟩)
    (remaining_lt_of_bytes rfl rfl ?_)⟩
  · dsimp only
    split
    · exact Serving.noConfusion
    · exact Serving.noConfusion
  · unfold bytesLeft
    rw [hserving]
    dsimp only
    rw [List.length_append, List.length_take, Nat.min_eq_left hpos]
    by_cases hall : 1 = rest.length
    · rw [if_pos hall]
      dsimp only
      omega
    · rw [if_neg hall]
      dsimp only
      rw [List.length_drop]
      omega

/-- What is handed to a call is what its caller gets if it waits. -/
theorem advances_deliver {s u : Exchange σ} (hcalls : u.calls = s.calls) (k : ℕ)
    (response : WireResponse) {worker : Worker}
    (hunbroken : ¬ ({ u.deliver k (.response response) with worker := worker } : Exchange σ).Broken)
    (hless : ({ u.deliver k (.response response) with worker := worker } : Exchange σ).remaining <
      s.remaining) :
    Advances s { u.deliver k (.response response) with worker := worker } := by
  have hphase : ∀ j, u.phaseOf j = s.phaseOf j := fun j => by rw [phaseOf, hcalls]; rfl
  have hrequest : ∀ j, u.requestOf j = s.requestOf j := fun j => by rw [requestOf, hcalls]; rfl
  refine ⟨hunbroken, hless, fun j => ?_, fun j hj => ?_, fun j given hj => ?_⟩
  · show (u.deliver k _).requestOf j = s.requestOf j
    rcases deliver_eq u k (.response response) with h | h
    · rw [h, hrequest]
    · rw [h, requestOf_setPhase, hrequest]
  · show (u.deliver k _).phaseOf j = _ ∨ ∃ given, (u.deliver k _).phaseOf j = _
    rw [← hphase] at hj
    by_cases hjk : j = k
    · subst hjk
      refine Or.inr ⟨response, ?_⟩
      rw [deliver, hj]
      dsimp only
      rw [phaseOf_setPhase_self, hj]
      rfl
    · rcases deliver_eq u k (.response response) with h | h
      · rw [h]
        exact Or.inl hj
      · rw [h, phaseOf_setPhase_of_ne u _ (Ne.symm hjk)]
        exact Or.inl hj
  · show (u.deliver k _).phaseOf j = _
    rw [← hphase] at hj
    by_cases hjk : j = k
    · subst hjk
      rw [deliver, hj]
      exact hj
    · rcases deliver_eq u k (.response response) with h | h
      · rw [h, hj]
      · rw [h, phaseOf_setPhase_of_ne u _ (Ne.symm hjk), hj]

variable (dispatch) in
/-- The thread reads a byte of an answer, and hands the answer to the call if that was the last. -/
theorem advances_clientRead {s : Exchange σ} (hunbroken : ¬ s.Broken) {k : ℕ} {got bytes : List UInt8}
    {reply response : WireResponse} (hworker : s.worker = .reading k got)
    (hcount : s.dispatched.length = s.sent.length) (hbytes : encodeReply reply = some bytes)
    (hdecode : decode WireResponse bytes = .ok response) (hframe : got ++ s.toClient = frame bytes)
    (hmore : s.toClient ≠ []) :
    ∃ t, s.step dispatch (.clientRead 1) = some t ∧ Advances s t := by
  obtain ⟨hdown, hended, hserving⟩ := not_broken.mp hunbroken
  have hpos : 1 ≤ s.toClient.length := List.length_pos_of_ne_nil hmore
  have hframable := framable_of_encodeReply hbytes
  have hwanted : 1 ≤ wanted maxResponse got := by
    rcases frameStatus_of_append hframable hframe with ⟨hnil, -⟩ | ⟨-, n, hn, -, hstatus⟩
    · exact absurd hnil hmore
    · rw [wanted_of_lacks hstatus]
      exact hn
  have hstep : s.step dispatch (.clientRead 1) =
      some (({ s with toClient := s.toClient.drop 1 } : Exchange σ).receive k
        (got ++ s.toClient.take 1)) := by
    dsimp only [step]
    rw [hworker]
    exact if_pos ⟨Nat.one_pos, hpos, hwanted⟩
  have hidle : s.worker ≠ .idle := fun hidle => by cases hworker.symm.trans hidle
  have hall : got ++ s.toClient.take 1 ++ s.toClient.drop 1 = frame bytes := by
    rw [List.append_assoc, List.take_append_drop, hframe]
  refine ⟨_, hstep, ?_⟩
  unfold receive
  rcases frameStatus_of_append hframable hall with ⟨-, hstatus⟩ | ⟨-, n, -, -, hstatus⟩
  · rw [hstatus]
    dsimp only
    rw [hdecode]
    dsimp only
    have hsame := sameTalk_deliver ({ s with toClient := s.toClient.drop 1 } : Exchange σ) k
      (.response response)
    refine advances_deliver (s := s) (u := { s with toClient := s.toClient.drop 1 }) rfl k response ?_
      (remaining_lt_of_stage ?_ ?_)
    · refine not_broken.mpr ⟨?_, Worker.noConfusion, ?_⟩
      · show (({ s with toClient := s.toClient.drop 1 } : Exchange σ).deliver k _).down = false
        rcases deliver_eq ({ s with toClient := s.toClient.drop 1 } : Exchange σ) k
          (.response response) with h | h
        · rw [h]
          exact hdown
        · rw [h]
          exact hdown
      · exact hsame.serving.symm ▸ hserving
    · exact queue_deliver ({ s with toClient := s.toClient.drop 1 } : Exchange σ) k _
    · rw [stage_of_eq hidle hcount]
      exact Nat.one_pos
  · rw [hstatus]
    refine .of_calls rfl (not_broken.mpr ⟨hdown, Worker.noConfusion, hserving⟩)
      (remaining_lt_of_bytes rfl ?_ ?_)
    · rw [stage_of_eq hidle hcount]
      exact stage_of_eq Worker.noConfusion hcount
    · unfold bytesLeft
      rw [hworker]
      dsimp only
      rw [List.length_drop]
      omega

/-! ## Runs of transfers -/

omit [Target] in
theorem mem_serveAll {helper : σ} {ins : List (MonitorRequest × ι)} {d : MonitorRequest × WireResponse}
    (h : d ∈ (serveAll dispatch helper ins).2) :
    ∃ (helper : σ) (input : ι), d.2 = (dispatch helper d.1 input).2 := by
  induction ins generalizing helper with
  | nil => cases h
  | cons i ins ih =>
    rcases List.mem_cons.mp h with rfl | h
    · exact ⟨helper, i.2, rfl⟩
    · exact ih h

/-- What can be sent: the requests of the calls and the replies of the helper. -/
structure Sendable (dispatch : σ → MonitorRequest → ι → σ × WireResponse) (s : Exchange σ) : Prop where
  requests : ∀ k request, s.requestOf k = some request →
    ∃ bytes, encode request maxRequest = .ok bytes
  replies : ∀ helper request input, ∃ response, Decodes (dispatch helper request input).2 response

/-- While the connection is not broken and there is something to do, a step can be taken. -/
theorem exists_advances {helper : σ} {s : Exchange σ} (hinv : s.Inv)
    (hserved : s.Served dispatch helper) (hsendable : s.Sendable dispatch) (input : ι)
    (hunbroken : ¬ s.Broken) (hmore : s.queue ≠ [] ∨ s.worker ≠ .idle) :
    ∃ a t, isTransfer a = true ∧ s.step dispatch a = some t ∧ Advances s t := by
  obtain ⟨hdown, hended, hserving⟩ := not_broken.mp hunbroken
  cases hinv.talk with
  | idle hworker =>
    obtain ⟨t, hstep, h⟩ := advances_dequeue dispatch hinv hunbroken hworker
      (hmore.resolve_right fun hne => hne hworker) hsendable.requests
    exact ⟨_, t, rfl, hstep, h⟩
  | sending k rest f hworker hrest _ _ hcount =>
    obtain ⟨t, hstep, h⟩ := advances_clientWrite dispatch hunbroken hworker hrest hcount
    exact ⟨_, t, rfl, hstep, h⟩
  | waiting k f hworker _ hframe hcount _ hreading hin =>
    obtain ⟨got, hgot, hbytes⟩ := hreading.resolve_right hserving
    obtain ⟨t, hstep, h⟩ := advances_helperRead hunbroken input hworker hframe hcount hgot hbytes hin
      hsendable.replies
    exact ⟨_, t, rfl, hstep, h⟩
  | answering k got rest bytes request reply hworker _ hcount _ hdispatched hbytes hframe htransfer
      hout =>
    rcases htransfer with ⟨hwriting, hrest⟩ | ⟨-, rfl⟩ | hother
    · obtain ⟨t, hstep, h⟩ := advances_helperWrite dispatch hunbroken hwriting hrest
      exact ⟨_, t, rfl, hstep, h⟩
    · obtain ⟨ins, hins⟩ := hserved
      have hmem : (request, reply) ∈ (serveAll dispatch helper ins).2 := by
        rw [hins]
        exact List.mem_of_getLast? hdispatched
      obtain ⟨helper', input', hreply⟩ := mem_serveAll hmem
      obtain ⟨response, written, hwritten, hdecode⟩ := hsendable.replies helper' request input'
      obtain rfl : written = bytes := by
        rw [← hreply] at hwritten
        exact Option.some.inj (hwritten.symm.trans hbytes)
      rw [List.append_nil] at hframe hout
      obtain ⟨t, hstep, h⟩ := advances_clientRead dispatch hunbroken hworker hcount hbytes
        hdecode hframe hout
      exact ⟨_, t, rfl, hstep, h⟩
    · exact absurd hother hserving
  | unanswerable _ _ _ _ _ _ hother => exact absurd hother hserving
  | lost hother => exact absurd hother hended

/-- What a run of transfers leads to: everything has been answered, and callers have only got answers. -/
structure Finished (s t : Exchange σ) : Prop where
  unbroken : ¬ t.Broken
  queue : t.queue = []
  worker : t.worker = .idle
  waits : ∀ k, s.phaseOf k = some (.waiting none) →
    ∃ response, t.phaseOf k = some (.waiting (some (.response response)))
  keeps : ∀ k response, s.phaseOf k = some (.waiting (some (.response response))) →
    t.phaseOf k = some (.waiting (some (.response response)))

theorem exists_run_finished {helper : σ} (input : ι) (s : Exchange σ) (hinv : s.Inv)
    (hserved : s.Served dispatch helper) (hawaited : s.Awaited) (hsendable : s.Sendable dispatch)
    (hunbroken : ¬ s.Broken) :
    ∃ as t, (∀ a ∈ as, isTransfer a = true) ∧ run (step dispatch) s as = some t ∧ Finished s t := by
  by_cases hmore : s.queue ≠ [] ∨ s.worker ≠ .idle
  · obtain ⟨a, u, ha, hstep, hadvances⟩ :=
      exists_advances hinv hserved hsendable input hunbroken hmore
    obtain ⟨as, t, has, hrun, hfinished⟩ := exists_run_finished input u (inv_step s a u hinv hstep)
      (served_step s a u hserved hstep) (awaited_step s a u hawaited hstep)
      ⟨fun k request hk => hsendable.requests k request (hadvances.requests k ▸ hk),
        hsendable.replies⟩ hadvances.unbroken
    refine ⟨a :: as, t, List.forall_mem_cons.mpr ⟨ha, has⟩,
      run_cons_eq_some.mpr ⟨u, hstep, hrun⟩, hfinished.unbroken, hfinished.queue, hfinished.worker,
      fun k hk => ?_, fun k response hk => hfinished.keeps k response (hadvances.keeps k response hk)⟩
    rcases hadvances.waits k hk with hk | ⟨response, hk⟩
    · exact hfinished.waits k hk
    · exact ⟨response, hfinished.keeps k response hk⟩
  · rw [not_or, not_not, not_not] at hmore
    obtain ⟨hqueue, hworker⟩ := hmore
    refine ⟨[], s, fun _ h => absurd h List.not_mem_nil, rfl, hunbroken, hqueue, hworker,
      fun k hk => ?_, fun _ _ hk => hk⟩
    rcases hawaited k hk with hmem | hcall | hended
    · rw [hqueue] at hmem
      cases hmem
    · rw [hworker] at hcall
      cases hcall
    · cases hworker.symm.trans hended
termination_by s.remaining
decreasing_by exact hadvances.less

theorem awaited_new (helper : σ) : (new helper).Awaited := by
  intro k hk
  cases hk

/-- As long as the connection is not broken and what is sent can be encoded, transfers can be made until
the queue is empty and the thread idle, and then everybody who waited has got an answer, which is the one
that was dispatched for the own request. -/
theorem exists_run_answered {helper : σ} {as : List (ExchangeAction ι)} {s : Exchange σ} (input : ι)
    (hs : run (step dispatch) (new helper) as = some s) (hunbroken : ¬ s.Broken)
    (hsendable : s.Sendable dispatch) :
    ∃ bs t, (∀ b ∈ bs, isTransfer b = true) ∧ run (step dispatch) s bs = some t ∧ ¬ t.Broken ∧
      t.queue = [] ∧ t.worker = .idle ∧ ∀ k, s.phaseOf k = some (.waiting none) →
        ∃ response, t.phaseOf k = some (.waiting (some (.response response))) ∧
          t.AnswerFor k response := by
  have hinv : s.Inv := run_invariant inv_step (inv_new helper) hs
  have hserved : s.Served dispatch helper := run_invariant served_step ⟨[], rfl⟩ hs
  have hawaited : s.Awaited := run_invariant awaited_step (awaited_new helper) hs
  obtain ⟨bs, t, hbs, hrun, hfinished⟩ :=
    exists_run_finished input s hinv hserved hawaited hsendable hunbroken
  have hlast : t.Inv := run_invariant inv_step hinv hrun
  refine ⟨bs, t, hbs, hrun, hfinished.unbroken, hfinished.queue, hfinished.worker, fun k hk => ?_⟩
  obtain ⟨response, hresponse⟩ := hfinished.waits k hk
  exact ⟨response, hresponse, hlast.answered k response ⟨_, hresponse, rfl⟩⟩

/-- Two calls that are queued. -/
def testQueued : Exchange ℕ :=
  ⟨[⟨.poll 7, .waiting none⟩, ⟨.poll 8, .waiting none⟩], [0, 1], .idle, [], [], false, .reading [], 0,
    [], []⟩

omit [Target] in
theorem sendable_testQueued :
    let _ : Target := ⟨false⟩
    testQueued.Sendable testDispatch := by
  intro _
  have hrequest : ∀ session : UInt64, session = 7 ∨ session = 8 →
      ∃ bytes, encode (MonitorRequest.poll session) maxRequest = .ok bytes := by
    rintro session (rfl | rfl)
    · exact ⟨_, rfl⟩
    · exact ⟨_, rfl⟩
  refine ⟨fun k request hk => ?_, fun _ _ _ => ⟨.error "gone", _, rfl, ?_⟩⟩
  · match k with
    | 0 => exact Option.some.inj hk ▸ hrequest 7 (Or.inl rfl)
    | 1 => exact Option.some.inj hk ▸ hrequest 8 (Or.inr rfl)
    | k + 2 => cases hk
  · rfl

omit [Target] in
/-- Both calls are answered. -/
theorem exists_run_answered_testQueued :
    let _ : Target := ⟨false⟩
    run (step testDispatch) (new 0) [.exchange (.poll 7), .exchange (.poll 8)] = some testQueued ∧
      ∃ bs t, run (step testDispatch) testQueued bs = some t ∧
        (∃ response, t.AnswerFor 0 response) ∧ ∃ response, t.AnswerFor 1 response := by
  intro _
  have hrun : run (step testDispatch) (new 0) [.exchange (.poll 7), .exchange (.poll 8)] =
      some testQueued := rfl
  obtain ⟨bs, t, -, ht, -, -, -, hanswered⟩ := exists_run_answered () hrun
    (not_broken.mpr ⟨rfl, Worker.noConfusion, Serving.noConfusion⟩) sendable_testQueued
  obtain ⟨first, -, hfirst⟩ := hanswered 0 rfl
  obtain ⟨second, -, hsecond⟩ := hanswered 1 rfl
  exact ⟨hrun, bs, t, ht, ⟨first, hfirst⟩, second, hsecond⟩

end Exchange

end Procinsh.Helper
