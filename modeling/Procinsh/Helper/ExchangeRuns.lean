import Procinsh.Helper.ExchangeSteps

/-!
# Answers to requests

Frames carry no number, and still every answer is for the request of the call that gets it, whatever order
callers, the thread and the helper take their steps in: see `answered_of_run`.
-/

namespace Procinsh.Helper

open Ipc

namespace Exchange

variable [Target] {σ ι : Type} {dispatch : σ → MonitorRequest → ι → σ × WireResponse}

/-! ## Steps of the thread -/

/-- The thread skips a request that nobody waits for, sends it, or ends. -/
theorem inv_takeRequest {s : Exchange σ} (h : s.Inv) {k : ℕ} {queue : List ℕ} {request : MonitorRequest}
    (hworker : s.worker = .idle) (hqueue : s.queue = k :: queue) (hrequest : s.requestOf k = some request) :
    (s.takeRequest k queue request).Inv := by
  have hskip : ({ s with queue := queue } : Exchange σ).Inv := by
    have hsub : (s.sent ++ queue).Sublist (s.sent ++ s.queue) :=
      (hqueue ▸ List.sublist_cons_self k queue).append_left s.sent
    refine h.of_talk rfl rfl (fun _ _ hj => hj) (h.order.sublist hsub)
      (fun j hj => h.known j (hsub.subset hj)) h.answered ?_
    exact SameTalk.talk (s := s) ⟨rfl, rfl, rfl, rfl, rfl, rfl, id, fun _ _ hj => hj⟩ h.talk
  unfold takeRequest
  dsimp only
  split
  · exact hskip
  · cases hencode : encode request maxRequest with
    | error e => exact hskip.fail s.toClient k e
    | ok bytes =>
      have hlist : s.sent ++ [k] ++ queue = s.sent ++ s.queue := by
        rw [hqueue, List.append_assoc, List.singleton_append]
      obtain ⟨hcount, hin, hout, hserving⟩ : s.dispatched.length = s.sent.length ∧ s.toHelper = [] ∧
          s.toClient = [] ∧ (s.serving = .reading [] ∨ s.serving = .ended) := by
        cases h.talk with
        | idle _ hcount hin hout hserving => exact ⟨hcount, hin, hout, hserving⟩
        | sending _ _ _ hother => cases hworker.symm.trans hother
        | waiting _ _ hother => cases hworker.symm.trans hother
        | answering _ _ _ _ _ _ hother => cases hworker.symm.trans hother
        | unanswerable _ hother => cases hworker.symm.trans hother
        | lost hother => cases hworker.symm.trans hother
      refine ⟨?_, ?_, ?_, ?_, ?_, ?_⟩
      · exact hlist.symm ▸ h.order
      · exact fun j hj => h.known j (hlist ▸ hj)
      · show s.dispatched.map _ = ((s.sent ++ [k]).take s.dispatched.length).map s.requestOf
        rw [h.requests, hcount, List.take_left' rfl, List.take_length]
      · show (s.sent ++ [k]).length ≤ s.dispatched.length + 1
        rw [List.length_append, List.length_singleton, hcount]
      · intro j response hj
        obtain ⟨i, asked, reply, hi, hrest⟩ := h.answered j response hj
        refine ⟨i, asked, reply, ?_, hrest⟩
        show (s.sent ++ [k])[i]? = some j
        rw [List.getElem?_append_left (List.getElem?_eq_some_iff.mp hi).1, hi]
      · refine .sending k (frame bytes) (frame bytes) rfl (frame_ne_nil bytes) ?_
          ⟨request, bytes, hrequest, hencode, rfl⟩ ?_ hout ?_
        · exact List.getLast?_concat
        · show s.dispatched.length + 1 = (s.sent ++ [k]).length
          rw [List.length_append, List.length_singleton, hcount]
        · refine hserving.imp_left fun hserving => ⟨[], hserving, ?_⟩
          rw [List.nil_append, hin, List.nil_append]

/-- The thread writes a part of a request. -/
theorem talk_clientWrite {s : Exchange σ} (h : s.Talk) {k n : ℕ} {rest : List UInt8}
    (hworker : s.worker = .sending k rest) (hn : n ≤ rest.length) :
    ({ s with
      toHelper := s.toHelper ++ rest.take n
      worker := if n = rest.length then .reading k [] else .sending k (rest.drop n) } :
      Exchange σ).Talk := by
  cases h with
  | sending k' rest' f hthis hrest hlast hframe hcount hout hserving =>
    obtain ⟨rfl, rfl⟩ := Worker.sending.inj (hworker.symm.trans hthis)
    have hbytes : ∀ {got}, got ++ s.toHelper ++ rest = f →
        got ++ (s.toHelper ++ rest.take n) ++ rest.drop n = f := by
      intro got hgot
      rw [← hgot, List.append_assoc, List.append_assoc, List.append_assoc, List.take_append_drop]
    by_cases hall : n = rest.length
    · refine .waiting k f (if_pos hall) hlast hframe hcount hout (hserving.imp_left ?_) ?_
      · rintro ⟨got, hgot, hgotBytes⟩
        refine ⟨got, hgot, ?_⟩
        have hnow := hbytes hgotBytes
        rwa [hall, List.drop_length, List.append_nil, ← hall] at hnow
      · rw [hall, List.take_length]
        exact List.append_ne_nil_of_right_ne_nil _ hrest
    · refine .sending k (rest.drop n) f (if_neg hall) ?_ hlast hframe hcount hout
        (hserving.imp_left ?_)
      · intro hnil
        exact hall (Nat.le_antisymm hn (List.drop_eq_nil_iff.mp hnil))
      · rintro ⟨got, hgot, hgotBytes⟩
        exact ⟨got, hgot, hbytes hgotBytes⟩
  | idle hother => cases hworker.symm.trans hother
  | waiting _ _ hother => cases hworker.symm.trans hother
  | answering _ _ _ _ _ _ hother => cases hworker.symm.trans hother
  | unanswerable _ hother => cases hworker.symm.trans hother
  | lost hother => cases hworker.symm.trans hother

/-- The reply that was dispatched last is for the call that was sent last. -/
theorem Inv.answerFor_last {s : Exchange σ} (h : s.Inv) {k : ℕ} {request : MonitorRequest}
    {reply response : WireResponse} (hlast : s.sent.getLast? = some k)
    (hcount : s.dispatched.length = s.sent.length)
    (hdispatched : s.dispatched.getLast? = some (request, reply)) (hdecodes : Decodes reply response) :
    s.AnswerFor k response := by
  rw [List.getLast?_eq_getElem?] at hlast hdispatched
  refine ⟨s.sent.length - 1, request, reply, hlast, hcount ▸ hdispatched, ?_, hdecodes⟩
  have hrequests := congrArg (fun l => l[s.sent.length - 1]?) h.requests
  rw [hcount, List.take_length, List.getElem?_map, List.getElem?_map, hlast, ← hcount, hdispatched]
    at hrequests
  exact (Option.some.inj hrequests).symm

/-- The thread hands the answer to the call that has been sent last. -/
theorem Inv.deliver_response {s : Exchange σ} (h : s.Inv) {k : ℕ} {request : MonitorRequest}
    {reply response : WireResponse} (hlast : s.sent.getLast? = some k)
    (hcount : s.dispatched.length = s.sent.length)
    (hdispatched : s.dispatched.getLast? = some (request, reply)) (hdecodes : Decodes reply response)
    (hin : s.toHelper = []) (hserving : s.serving = .reading [] ∨ s.serving = .ended) :
    ({ ({ s with toClient := [] } : Exchange σ).deliver k (.response response) with
      worker := .idle } : Exchange σ).Inv := by
  have hsame := sameTalk_deliver ({ s with toClient := [] } : Exchange σ) k (.response response)
  have hqueue := queue_deliver ({ s with toClient := [] } : Exchange σ) k (.response response)
  have hlist : (({ s with toClient := [] } : Exchange σ).deliver k (.response response)).sent ++
      (({ s with toClient := [] } : Exchange σ).deliver k (.response response)).queue =
        s.sent ++ s.queue := by
    rw [hsame.sent, hqueue]
  refine h.of_talk hsame.sent hsame.dispatched hsame.requests ?_ ?_ ?_ ?_
  · exact hlist.symm ▸ h.order
  · intro j hj
    exact (length_calls_deliver _ k _).symm ▸ h.known j (hlist ▸ hj)
  · intro j given hj
    rcases answered_deliver (s := { s with toClient := [] }) hj with hj | ⟨rfl, hgiven⟩
    · exact h.answered j given hj
    · cases hgiven
      exact h.answerFor_last hlast hcount hdispatched hdecodes
  · refine .idle rfl ?_ (hsame.toHelper.trans hin) hsame.toClient ?_
    · show (({ s with toClient := [] } : Exchange σ).deliver k _).dispatched.length =
        (({ s with toClient := [] } : Exchange σ).deliver k _).sent.length
      rw [hsame.dispatched, hsame.sent, hcount]
    · show (({ s with toClient := [] } : Exchange σ).deliver k _).serving = _ ∨
        (({ s with toClient := [] } : Exchange σ).deliver k _).serving = _
      rw [hsame.serving]
      exact hserving

/-- The thread reads a part of an answer, and the call gets it when it is complete. -/
theorem inv_clientRead {s : Exchange σ} (h : s.Inv) {k n : ℕ} {got : List UInt8}
    (hworker : s.worker = .reading k got) (hpos : 0 < n) (hn : n ≤ s.toClient.length) :
    (({ s with toClient := s.toClient.drop n } : Exchange σ).receive k
      (got ++ s.toClient.take n)).Inv := by
  have hsome : s.toClient ≠ [] := List.ne_nil_of_length_pos (by omega)
  cases h.talk with
  | answering k' got' rest bytes request reply hthis hlast hcount hin hdispatched hbytes hframe
      hserving =>
    obtain ⟨rfl, rfl⟩ := Worker.reading.inj (hworker.symm.trans hthis)
    have hnow : got ++ s.toClient.take n ++ (s.toClient.drop n ++ rest) = frame bytes := by
      rw [← List.append_assoc, List.append_assoc got, List.take_append_drop, hframe]
    unfold receive
    rcases frameStatus_of_append (framable_of_encodeReply hbytes) hnow with
      ⟨hend, hstatus⟩ | ⟨hmore, m, -, -, hstatus⟩
    · rw [hstatus]
      dsimp only
      obtain ⟨hdrop, rfl⟩ := List.append_eq_nil_iff.mp hend
      cases hdecode : decode WireResponse bytes with
      | error e => exact h.fail _ k _
      | ok response =>
        rw [hdrop]
        exact h.deliver_response hlast hcount hdispatched ⟨bytes, hbytes, hdecode⟩ hin
          (hserving.elim (fun hwriting => absurd rfl hwriting.2) (Or.imp_left And.left))
    · rw [hstatus]
      refine h.of_calls rfl rfl rfl rfl ?_
      refine .answering k _ rest bytes request reply rfl hlast hcount hin hdispatched hbytes ?_
        hserving hmore
      rw [← hnow, ← List.append_assoc]
  | idle hother => cases hworker.symm.trans hother
  | sending _ _ _ hother => cases hworker.symm.trans hother
  | waiting _ _ _ _ _ _ hout => exact absurd hout hsome
  | unanswerable _ _ _ _ _ hout => exact absurd hout hsome
  | lost hother => cases hworker.symm.trans hother

/-! ## Steps of the helper -/

variable (dispatch) in
/-- The helper waits for the rest of a request, or dispatches it. -/
theorem serve_of_frame (s : Exchange σ) (input : ι) {k : ℕ} {got rest f : List UInt8}
    (hframe : s.RequestFrame k f) (hbytes : got ++ rest = f) :
    (rest = [] ∧ ∃ request, s.requestOf k = some request ∧
        s.serve dispatch input got = s.answer dispatch input request) ∨
      (rest ≠ [] ∧ s.serve dispatch input got = { s with serving := .reading got }) := by
  obtain ⟨request, bytes, hrequest, hencode, rfl⟩ := hframe
  obtain ⟨hframable, hdecode⟩ := framable_of_encode_request hencode
  unfold serve
  rcases frameStatus_of_append hframable hbytes with ⟨hrest, hstatus⟩ | ⟨hrest, m, -, -, hstatus⟩
  · refine Or.inl ⟨hrest, request, hrequest, ?_⟩
    rw [hstatus]
    dsimp only
    rw [hdecode]
  · refine Or.inr ⟨hrest, ?_⟩
    rw [hstatus]

theorem length_dispatched_answer (s : Exchange σ) (input : ι) (request : MonitorRequest) :
    (s.answer dispatch input request).dispatched.length = s.dispatched.length + 1 := by
  show (s.dispatched ++ [(request, (dispatch s.helper request input).2)]).length = _
  rw [List.length_append, List.length_singleton]

/-- The helper dispatches the request of the call that has been sent last. -/
theorem Inv.answer {s : Exchange σ} (h : s.Inv) (toHelper : List UInt8) (input : ι) {k : ℕ}
    {request : MonitorRequest} (hlast : s.sent.getLast? = some k)
    (hrequest : s.requestOf k = some request) (hcount : s.dispatched.length + 1 = s.sent.length)
    (htalk : (({ s with toHelper := toHelper } : Exchange σ).answer dispatch input request).Talk) :
    (({ s with toHelper := toHelper } : Exchange σ).answer dispatch input request).Inv := by
  have hsent : s.sent[s.dispatched.length]? = some k := by
    rw [← hlast, List.getLast?_eq_getElem?, ← hcount, Nat.add_sub_cancel]
  refine ⟨h.order, h.known, ?_, ?_, ?_, htalk⟩
  · show (s.dispatched ++ [(request, (dispatch s.helper request input).2)]).map _ =
      (s.sent.take (s.dispatched ++ [(request, (dispatch s.helper request input).2)]).length).map
        s.requestOf
    rw [List.length_append, List.length_singleton, List.map_append, h.requests, List.take_add_one,
      hsent, List.map_append]
    show _ = _ ++ [s.requestOf k]
    rw [hrequest]
    rfl
  · rw [length_dispatched_answer]
    exact Nat.le_succ_of_le (Nat.le_of_eq hcount.symm)
  · intro j response hj
    obtain ⟨i, asked, reply, hi, hdispatched, hrest⟩ := h.answered j response hj
    refine ⟨i, asked, reply, hi, ?_, hrest⟩
    show (s.dispatched ++ [_])[i]? = _
    rw [List.getElem?_append_left (List.getElem?_eq_some_iff.mp hdispatched).1, hdispatched]

variable (dispatch) in
theorem serving_answer (s : Exchange σ) (input : ι) (request : MonitorRequest) :
    (∃ bytes, encodeReply (dispatch s.helper request input).2 = some bytes ∧
        (s.answer dispatch input request).serving = .writing (frame bytes)) ∨
      (s.answer dispatch input request).serving = .ended := by
  unfold answer
  dsimp only
  cases hreply : encodeReply (dispatch s.helper request input).2 with
  | some bytes => exact Or.inl ⟨bytes, rfl, rfl⟩
  | none => exact Or.inr rfl

/-- The helper dispatches a request that the thread waits for. -/
theorem talk_answer {s : Exchange σ} (input : ι) (request : MonitorRequest) {k : ℕ}
    (hworker : s.worker = .reading k []) (hlast : s.sent.getLast? = some k)
    (hcount : s.dispatched.length + 1 = s.sent.length) (hin : s.toHelper = [])
    (hout : s.toClient = []) : (s.answer dispatch input request).Talk := by
  have hanswered : (s.answer dispatch input request).dispatched.length = s.sent.length :=
    (length_dispatched_answer s input request).trans hcount
  rcases serving_answer dispatch s input request with ⟨bytes, hbytes, hserving⟩ | hserving
  · refine .answering k [] (frame bytes) bytes request _ hworker hlast hanswered hin
      List.getLast?_concat hbytes ?_ (Or.inl ⟨hserving, frame_ne_nil bytes⟩)
      (List.append_ne_nil_of_right_ne_nil _ (frame_ne_nil bytes))
    show [] ++ s.toClient ++ frame bytes = frame bytes
    rw [hout]
    rfl
  · exact .unanswerable k hworker hlast hanswered hin hout hserving

/-- The helper dispatches a request that nobody waits for any more. -/
theorem talk_answer_of_lost {s : Exchange σ} (input : ι) (request : MonitorRequest)
    (hworker : s.worker = .ended) (hdown : s.down = true)
    (hcount : s.dispatched.length + 1 = s.sent.length) (hin : s.toHelper = []) :
    (s.answer dispatch input request).Talk := by
  have hanswered : (s.answer dispatch input request).dispatched.length = s.sent.length :=
    (length_dispatched_answer s input request).trans hcount
  refine .lost hworker hdown ?_
  rcases serving_answer dispatch s input request with ⟨bytes, -, hserving⟩ | hserving
  · exact Or.inr (Or.inl ⟨hanswered, hin, Or.inr ⟨frame bytes, hserving⟩⟩)
  · exact Or.inl hserving

/-- The helper reads a part of a request, and dispatches it when it is complete. -/
theorem inv_helperRead {s : Exchange σ} (h : s.Inv) {n : ℕ} {got : List UInt8} (input : ι)
    (hreading : s.serving = .reading got) (hpos : 0 < n) (hn : n ≤ s.toHelper.length) :
    (({ s with toHelper := s.toHelper.drop n } : Exchange σ).serve dispatch input
      (got ++ s.toHelper.take n)).Inv := by
  have hsome : s.toHelper ≠ [] := List.ne_nil_of_length_pos (by omega)
  have hnotEnded : s.serving ≠ .ended := fun hended => by cases hreading.symm.trans hended
  have hbytes : ∀ {got' rest f}, s.serving = .reading got' → got' ++ s.toHelper ++ rest = f →
      got ++ s.toHelper.take n ++ (s.toHelper.drop n ++ rest) = f := by
    intro got' rest f hgot hf
    obtain rfl := Serving.reading.inj (hreading.symm.trans hgot)
    rw [← List.append_assoc, List.append_assoc got, List.take_append_drop, hf]
  have hserve : ∀ {k rest f}, s.RequestFrame k f →
      got ++ s.toHelper.take n ++ (s.toHelper.drop n ++ rest) = f → _ := fun hframe hall =>
    serve_of_frame dispatch { s with toHelper := s.toHelper.drop n } input hframe hall
  cases h.talk with
  | sending k rest f hworker hrest hlast hframe hcount hout hserving =>
    obtain ⟨got', hgot, hf⟩ := hserving.resolve_right hnotEnded
    rcases hserve hframe (hbytes hgot hf) with ⟨hnil, -⟩ | ⟨-, hserve⟩
    · exact absurd (List.append_eq_nil_iff.mp hnil).2 hrest
    · rw [hserve]
      refine h.of_calls rfl rfl rfl rfl ?_
      refine .sending k rest f hworker hrest hlast hframe hcount hout (Or.inl ⟨_, rfl, ?_⟩)
      rw [List.append_assoc, hbytes hgot hf]
  | waiting k f hworker hlast hframe hcount hout hserving =>
    obtain ⟨got', hgot, hf⟩ := hserving.resolve_right hnotEnded
    have hall := hbytes hgot ((List.append_nil _).trans hf)
    rcases hserve hframe hall with ⟨hnil, request, hrequest, hserve⟩ | ⟨hmore, hserve⟩
    · rw [hserve]
      refine h.answer _ input hlast hrequest hcount ?_
      exact talk_answer input request hworker hlast hcount (List.append_eq_nil_iff.mp hnil).1 hout
    · rw [hserve]
      refine h.of_calls rfl rfl rfl rfl ?_
      rw [List.append_nil] at hall hmore
      exact .waiting k f hworker hlast hframe hcount hout (Or.inl ⟨_, rfl, hall⟩) hmore
  | lost hworker hdown hserving =>
    rcases hserving with hserving | ⟨-, hin, -⟩ | ⟨k, got', rest, f, hgot, hlast, hframe, hcount, hf⟩
    · exact absurd hserving hnotEnded
    · exact absurd hin hsome
    · rcases hserve hframe (hbytes hgot hf) with ⟨hnil, request, hrequest, hserve⟩ | ⟨-, hserve⟩
      · rw [hserve]
        refine h.answer _ input hlast hrequest hcount ?_
        exact talk_answer_of_lost input request hworker hdown hcount
          (List.append_eq_nil_iff.mp hnil).1
      · rw [hserve]
        refine h.of_calls rfl rfl rfl rfl (.lost hworker hdown (Or.inr (Or.inr ?_)))
        refine ⟨k, _, rest, f, rfl, hlast, hframe, hcount, ?_⟩
        rw [List.append_assoc, hbytes hgot hf]
  | idle _ _ hin => exact absurd hin hsome
  | answering _ _ _ _ _ _ _ _ _ hin => exact absurd hin hsome
  | unanswerable _ _ _ _ hin => exact absurd hin hsome

/-- The helper writes a part of an answer. -/
theorem talk_helperWrite {s : Exchange σ} (h : s.Talk) {n : ℕ} {rest : List UInt8}
    (hwriting : s.serving = .writing rest) (hdown : ¬ s.down) (hn : n ≤ rest.length) :
    ({ s with
      toClient := s.toClient ++ rest.take n
      serving := if n = rest.length then .reading [] else .writing (rest.drop n) } :
      Exchange σ).Talk := by
  have hnotEnded : s.serving ≠ .ended := fun hended => by cases hwriting.symm.trans hended
  have hnotReading : ∀ got, s.serving ≠ .reading got := fun got hgot => by
    cases hwriting.symm.trans hgot
  cases h with
  | answering k got rest' bytes request reply hworker hlast hcount hin hdispatched hbytes hframe
      hserving hmore =>
    obtain rfl : rest = rest' := by
      rcases hserving with ⟨hserving, -⟩ | ⟨hserving, -⟩ | hserving
      · exact Serving.writing.inj (hwriting.symm.trans hserving)
      · exact absurd hserving (hnotReading _)
      · exact absurd hserving hnotEnded
    refine .answering k got (rest.drop n) bytes request reply hworker hlast hcount hin hdispatched
      hbytes ?_ ?_ ?_
    · show got ++ (s.toClient ++ rest.take n) ++ rest.drop n = frame bytes
      rw [← hframe, List.append_assoc, List.append_assoc, List.append_assoc, List.take_append_drop]
    · by_cases hall : n = rest.length
      · exact Or.inr (Or.inl ⟨if_pos hall, hall ▸ List.drop_length⟩)
      · refine Or.inl ⟨if_neg hall, fun hnil => hall ?_⟩
        exact Nat.le_antisymm hn (List.drop_eq_nil_iff.mp hnil)
    · show s.toClient ++ rest.take n ++ rest.drop n ≠ []
      rwa [List.append_assoc, List.take_append_drop]
  | lost _ hthis => exact absurd hthis hdown
  | idle _ _ _ _ hserving =>
    exact absurd (hserving.resolve_right hnotEnded) (hnotReading _)
  | sending _ _ _ _ _ _ _ _ _ hserving =>
    obtain ⟨got, hgot, -⟩ := hserving.resolve_right hnotEnded
    exact absurd hgot (hnotReading _)
  | waiting _ _ _ _ _ _ _ hserving _ =>
    obtain ⟨got, hgot, -⟩ := hserving.resolve_right hnotEnded
    exact absurd hgot (hnotReading _)
  | unanswerable _ _ _ _ _ _ hserving => exact absurd hserving hnotEnded

/-- The helper may end at any time. -/
theorem talk_helperFail {s : Exchange σ} (h : s.Talk) :
    ({ s with serving := .ended } : Exchange σ).Talk := by
  cases h with
  | idle hworker hcount hin hout => exact .idle hworker hcount hin hout (Or.inr rfl)
  | sending k rest f hworker hrest hlast hframe hcount hout =>
    exact .sending k rest f hworker hrest hlast hframe hcount hout (Or.inr rfl)
  | waiting k f hworker hlast hframe hcount hout _ hmore =>
    exact .waiting k f hworker hlast hframe hcount hout (Or.inr rfl) hmore
  | answering k got rest bytes request reply hworker hlast hcount hin hdispatched hbytes hframe _
      hmore =>
    exact .answering k got rest bytes request reply hworker hlast hcount hin hdispatched hbytes
      hframe (Or.inr (Or.inr rfl)) hmore
  | unanswerable k hworker hlast hcount hin hout =>
    exact .unanswerable k hworker hlast hcount hin hout rfl
  | lost hworker hdown => exact .lost hworker hdown (Or.inl rfl)

/-! ## Runs -/

/-- Every step keeps the invariant. -/
theorem inv_step (s : Exchange σ) (a : ExchangeAction ι) (t : Exchange σ) (h : s.Inv)
    (hstep : s.step dispatch a = some t) : t.Inv := by
  cases stepped_of_step hstep with
  | queued hphase _ =>
    refine h.of_append _ ?_ (Or.inr rfl)
    rcases hphase with rfl | ⟨rfl, -⟩
    · rfl
    · rfl
  | refused hcall => exact h.of_append _ (congrArg _ hcall) (Or.inl rfl)
  | unchanged => exact h
  | phase down hold hnew hdown =>
    refine h.of_setPhase (fun response hresponse => ⟨_, hold, ?_⟩) _ hdown
    rcases hnew with rfl | ⟨delivery, rfl, hnone | rfl⟩
    · cases hresponse
    · cases hnone.symm.trans hresponse
    · cases delivery with
      | response given => exact hresponse
      | unavailable error => cases hresponse
  | dequeue hworker hqueue hrequest => exact inv_takeRequest h hworker hqueue hrequest
  | clientWrite hworker _ _ hn =>
    exact h.of_calls rfl rfl rfl rfl (talk_clientWrite h.talk hworker hn)
  | clientRead hworker hpos hn => exact inv_clientRead h hworker hpos hn
  | clientFail _ => exact h.fail s.toClient _ _
  | helperRead hserving hpos hn => exact inv_helperRead h _ hserving hpos hn
  | helperWrite hserving hdown _ hn =>
    exact h.of_calls rfl rfl rfl rfl (talk_helperWrite h.talk hserving hdown hn)
  | helperFail => exact h.of_calls rfl rfl rfl rfl (talk_helperFail h.talk)

theorem inv_new (helper : σ) : (new helper).Inv where
  order := List.Pairwise.nil
  known _ hk := absurd hk List.not_mem_nil
  requests := rfl
  single := Nat.zero_le _
  answered _ _ := by
    rintro ⟨_, hphase, -⟩
    cases hphase
  talk := .idle rfl rfl rfl rfl (Or.inl rfl)

/-! ## The helper behind the socket -/

/-- A helper that serves requests one after another, each with what it observes then. -/
def serveAll (dispatch : σ → MonitorRequest → ι → σ × WireResponse) :
    σ → List (MonitorRequest × ι) → σ × List (MonitorRequest × WireResponse)
  | helper, [] => (helper, [])
  | helper, (request, input) :: rest =>
    let (helper, response) := dispatch helper request input
    let (helper, answers) := serveAll dispatch helper rest
    (helper, (request, response) :: answers)

omit [Target] in
theorem serveAll_concat (helper : σ) (ins : List (MonitorRequest × ι)) (request : MonitorRequest)
    (input : ι) :
    serveAll dispatch helper (ins ++ [(request, input)]) =
      ((dispatch (serveAll dispatch helper ins).1 request input).1,
        (serveAll dispatch helper ins).2 ++
          [(request, (dispatch (serveAll dispatch helper ins).1 request input).2)]) := by
  induction ins generalizing helper with
  | nil => rfl
  | cons i ins ih =>
    rw [List.cons_append, serveAll, serveAll]
    dsimp only
    rw [ih]
    rfl

omit [Target] in
variable (dispatch) in
theorem map_fst_serveAll (helper : σ) (ins : List (MonitorRequest × ι)) :
    (serveAll dispatch helper ins).2.map Prod.fst = ins.map Prod.fst := by
  induction ins generalizing helper with
  | nil => rfl
  | cons i ins ih => exact congrArg _ (ih _)

/-- The helper is where it would be after serving the dispatched requests one after another. -/
def Served (dispatch : σ → MonitorRequest → ι → σ × WireResponse) (helper : σ) (s : Exchange σ) : Prop :=
  ∃ ins, serveAll dispatch helper ins = (s.helper, s.dispatched)

theorem helper_deliver (s : Exchange σ) (k : ℕ) (delivery : Delivery) :
    (s.deliver k delivery).helper = s.helper := by
  rcases deliver_eq s k delivery with h | h
  · rw [h]
  · rw [h]; rfl

theorem Served.of_eq {helper : σ} {s t : Exchange σ} (h : s.Served dispatch helper)
    (hhelper : t.helper = s.helper) (hdispatched : t.dispatched = s.dispatched) :
    t.Served dispatch helper := by
  obtain ⟨ins, hins⟩ := h
  exact ⟨ins, by rw [hins, hhelper, hdispatched]⟩

theorem Served.deliver {helper : σ} {s : Exchange σ} (h : s.Served dispatch helper) (k : ℕ)
    (delivery : Delivery) : (s.deliver k delivery).Served dispatch helper :=
  h.of_eq (helper_deliver s k delivery) (sameTalk_deliver s k delivery).dispatched

theorem served_step {helper : σ} (s : Exchange σ) (a : ExchangeAction ι) (t : Exchange σ)
    (h : s.Served dispatch helper) (hstep : s.step dispatch a = some t) : t.Served dispatch helper := by
  cases stepped_of_step hstep with
  | queued _ _ => exact h
  | refused _ => exact h
  | unchanged => exact h
  | phase _ _ _ _ => exact h
  | @dequeue k queue request _ _ _ =>
    have hskip : ({ s with queue := queue } : Exchange σ).Served dispatch helper := h
    unfold takeRequest
    dsimp only
    split
    · exact h
    · split
      · exact h
      · next e _ => exact hskip.deliver k (.unavailable ("monitor IPC unavailable: " ++ e))
  | clientWrite _ _ _ _ => exact h
  | clientRead _ _ _ =>
    have hread := fun toClient : List UInt8 => Served.deliver (s := { s with toClient := toClient }) h
    unfold receive
    split
    · exact h
    · exact hread _ _ _
    · split
      · exact hread _ _ _
      · exact hread _ _ _
  | clientFail _ => exact h.deliver _ _
  | @helperRead n got input _ _ _ =>
    unfold serve
    split
    · exact h
    · exact h
    · split
      · exact h
      · next request _ =>
        obtain ⟨ins, hins⟩ := h
        refine ⟨ins ++ [(request, input)], ?_⟩
        rw [serveAll_concat, hins]
        rfl
  | helperWrite _ _ _ _ => exact h
  | helperFail => exact h

/-! ## Answers to requests -/

/-- The calls are served as if each was performed alone, in the order of the queue.  The helper is where
it would be after serving a list of requests; these are the requests of the calls that have been sent but
for the last one, which may be on its way; and what a call is answered is what the helper made of its
own request. -/
theorem answered_of_run {helper : σ} {as : List (ExchangeAction ι)} {t : Exchange σ}
    (hrun : run (step dispatch) (new helper) as = some t) :
    ∃ ins : List (MonitorRequest × ι), serveAll dispatch helper ins = (t.helper, t.dispatched) ∧
      ins.map (fun i => some i.1) = (t.sent.take ins.length).map t.requestOf ∧
      t.sent.length ≤ ins.length + 1 ∧ t.sent.Pairwise (· < ·) ∧ (∀ k ∈ t.sent, k < t.calls.length) ∧
      ∀ k response, t.Answered k response → t.AnswerFor k response := by
  have hinv : t.Inv := run_invariant inv_step (inv_new helper) hrun
  obtain ⟨ins, hins⟩ : t.Served dispatch helper := run_invariant served_step ⟨[], rfl⟩ hrun
  have hfst : ins.map Prod.fst = t.dispatched.map Prod.fst := by
    rw [← map_fst_serveAll dispatch helper, hins]
  have hlength : ins.length = t.dispatched.length := by
    rw [← List.length_map (f := Prod.fst), hfst, List.length_map]
  refine ⟨ins, hins, ?_, ?_, ?_, ?_, hinv.answered⟩
  · rw [hlength, ← hinv.requests]
    have hsome := congrArg (List.map some) hfst
    rwa [List.map_map, List.map_map] at hsome
  · exact hlength ▸ hinv.single
  · exact hinv.order.sublist (List.sublist_append_left _ _)
  · exact fun k hk => hinv.known k (List.mem_append_left _ hk)

/-! ## A run -/

/-- A helper that counts requests and knows no session. -/
def testDispatch (count : ℕ) (_ : MonitorRequest) (_ : Unit) : ℕ × WireResponse :=
  (count + 1, .error "gone")

/-- A call that is answered, while another one is queued and sent in part. -/
def testActions : List (ExchangeAction Unit) :=
  [.exchange (.poll 7), .exchange (.poll 8), .dequeue, .clientWrite 13, .helperRead 4 (),
    .helperRead 9 (), .helperWrite 13, .clientRead 4, .clientRead 9, .resolve 0, .dequeue,
    .clientWrite 5]

/-- The error that a call has been answered. -/
def errorOf (s : Exchange ℕ) (k : ℕ) : Option String :=
  match (s.phaseOf k).bind CallPhase.response? with
  | some (.error e) => some e
  | _ => none

theorem answered_of_errorOf {s : Exchange ℕ} {k : ℕ} {e : String} (h : errorOf s k = some e) :
    s.Answered k (.error e) := by
  unfold errorOf at h
  split at h
  · next e' hresponse =>
    cases h
    exact Option.bind_eq_some_iff.mp hresponse
  · cases h

omit [Target] in
/-- What the call has been answered is what was dispatched for it. -/
theorem answered_of_run_testActions :
    let _ : Target := ⟨false⟩
    ∃ t, run (step testDispatch) (new 0) testActions = some t ∧ t.sent = [0, 1] ∧
      t.Answered 0 (.error "gone") ∧ t.AnswerFor 0 (.error "gone") := by
  intro _
  have hsome : (run (step testDispatch) (new 0) testActions).map (fun t => (t.sent, errorOf t 0)) =
      some ([0, 1], some "gone") := by decide +kernel
  obtain ⟨t, hrun, hvalues⟩ := Option.map_eq_some_iff.mp hsome
  obtain ⟨hsent, herror⟩ := Prod.mk.inj hvalues
  have hanswered := answered_of_errorOf herror
  obtain ⟨_, -, -, -, -, -, h⟩ := answered_of_run hrun
  exact ⟨t, hrun, hsent, hanswered, h 0 _ hanswered⟩

end Exchange

end Procinsh.Helper
