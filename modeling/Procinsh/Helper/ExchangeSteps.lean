import Procinsh.Helper.ExchangeTalk

/-!
# Steps of the exchange

What a step of a party does to the conversation.  A caller changes nothing of it; the thread and the
helper pass from one of its positions to the next.
-/

namespace Procinsh.Helper

open Ipc

namespace Exchange

variable [Target] {σ ι : Type}

/-! ## Phases of the calls -/

theorem requestOf_setPhase (s : Exchange σ) (k : ℕ) (phase : CallPhase) (j : ℕ) :
    (s.setPhase k phase).requestOf j = s.requestOf j := by
  unfold requestOf setPhase
  rw [List.getElem?_modify]
  cases s.calls[j]? with
  | none => rfl
  | some c =>
    by_cases h : k = j
    · simp [h]
    · simp [h]

theorem phaseOf_setPhase_of_ne (s : Exchange σ) {k j : ℕ} (phase : CallPhase) (h : k ≠ j) :
    (s.setPhase k phase).phaseOf j = s.phaseOf j := by
  unfold phaseOf setPhase
  rw [List.getElem?_modify]
  cases s.calls[j]? with
  | none => rfl
  | some c => simp [h]

theorem phaseOf_setPhase_self (s : Exchange σ) (k : ℕ) (phase : CallPhase) :
    (s.setPhase k phase).phaseOf k = (s.phaseOf k).map fun _ => phase := by
  unfold phaseOf setPhase
  rw [List.getElem?_modify]
  cases s.calls[k]? with
  | none => rfl
  | some c => simp

theorem length_calls_setPhase (s : Exchange σ) (k : ℕ) (phase : CallPhase) :
    (s.setPhase k phase).calls.length = s.calls.length := List.length_modify ..

theorem sameTalk_setPhase (s : Exchange σ) (k : ℕ) (phase : CallPhase) :
    SameTalk s (s.setPhase k phase) :=
  ⟨rfl, rfl, rfl, rfl, rfl, rfl, id, fun j _ hj => (requestOf_setPhase s k phase j).trans hj⟩

/-- After a change of the phase of a call, another call has been answered as before. -/
theorem answered_setPhase {s : Exchange σ} {k j : ℕ} {phase : CallPhase} {response : WireResponse}
    (h : (s.setPhase k phase).Answered j response) :
    s.Answered j response ∨ (j = k ∧ phase.response? = some response) := by
  obtain ⟨now, hnow, hresponse⟩ := h
  by_cases hjk : j = k
  · subst hjk
    rw [phaseOf_setPhase_self] at hnow
    obtain ⟨_, -, rfl⟩ := Option.map_eq_some_iff.mp hnow
    exact Or.inr ⟨rfl, hresponse⟩
  · rw [phaseOf_setPhase_of_ne s phase (Ne.symm hjk)] at hnow
    exact Or.inl ⟨now, hnow, hresponse⟩

/-- What is handed to a call changes its phase at most. -/
theorem deliver_eq (s : Exchange σ) (k : ℕ) (delivery : Delivery) :
    s.deliver k delivery = s ∨ s.deliver k delivery = s.setPhase k (.waiting (some delivery)) := by
  unfold deliver
  split
  · exact Or.inr rfl
  · exact Or.inl rfl

theorem sameTalk_deliver (s : Exchange σ) (k : ℕ) (delivery : Delivery) :
    SameTalk s (s.deliver k delivery) := by
  rcases deliver_eq s k delivery with h | h
  · exact h.symm ▸ ⟨rfl, rfl, rfl, rfl, rfl, rfl, id, fun _ _ hj => hj⟩
  · exact h.symm ▸ sameTalk_setPhase s k _

theorem queue_deliver (s : Exchange σ) (k : ℕ) (delivery : Delivery) :
    (s.deliver k delivery).queue = s.queue := by
  rcases deliver_eq s k delivery with h | h
  · rw [h]
  · rw [h]; rfl

theorem length_calls_deliver (s : Exchange σ) (k : ℕ) (delivery : Delivery) :
    (s.deliver k delivery).calls.length = s.calls.length := by
  rcases deliver_eq s k delivery with h | h
  · rw [h]
  · rw [h, length_calls_setPhase]

theorem answered_deliver {s : Exchange σ} {k j : ℕ} {delivery : Delivery} {response : WireResponse}
    (h : (s.deliver k delivery).Answered j response) :
    s.Answered j response ∨ (j = k ∧ delivery = .response response) := by
  rcases deliver_eq s k delivery with heq | heq
  · exact Or.inl (heq ▸ h)
  · rw [heq] at h
    refine (answered_setPhase h).imp_right (And.imp_right fun hresponse => ?_)
    cases delivery with
    | response given => exact congrArg _ (Option.some.inj hresponse)
    | unavailable error => cases hresponse

/-! ## Steps that keep the conversation -/

/-- The requests of calls that are known are the same after a step that keeps them. -/
theorem Inv.known_request {s : Exchange σ} (h : s.Inv) {k : ℕ} (hk : k ∈ s.sent) :
    ∃ request, s.requestOf k = some request := by
  have hlt := h.known k (List.mem_append_left _ hk)
  exact ⟨(s.calls[k]).request, congrArg (Option.map _) (List.getElem?_eq_getElem hlt)⟩

/-- A step that keeps what has been sent and dispatched, the requests and what has been answered. -/
theorem Inv.of_talk {s t : Exchange σ} (h : s.Inv) (hsent : t.sent = s.sent)
    (hdispatched : t.dispatched = s.dispatched)
    (hrequests : ∀ k request, s.requestOf k = some request → t.requestOf k = some request)
    (horder : (t.sent ++ t.queue).Pairwise (· < ·))
    (hknown : ∀ k ∈ t.sent ++ t.queue, k < t.calls.length)
    (hanswered : ∀ k response, t.Answered k response → s.AnswerFor k response) (htalk : t.Talk) :
    t.Inv := by
  refine ⟨horder, hknown, ?_, ?_, ?_, htalk⟩
  · rw [hdispatched, hsent, h.requests]
    refine List.map_congr_left fun k hk => ?_
    obtain ⟨request, hrequest⟩ := h.known_request (List.mem_of_mem_take hk)
    rw [hrequest, hrequests k request hrequest]
  · rw [hsent, hdispatched]
    exact h.single
  · intro k response hk
    obtain ⟨i, request, reply, hi, hdispatch, hrequest, hdecodes⟩ :=
      hanswered k response hk
    exact ⟨i, request, reply, hsent ▸ hi, hdispatched ▸ hdispatch, hrequests k request hrequest,
      hdecodes⟩

/-- Only where the conversation stands has changed. -/
theorem Inv.of_calls {s t : Exchange σ} (h : s.Inv) (hcalls : t.calls = s.calls)
    (hqueue : t.queue = s.queue) (hsent : t.sent = s.sent)
    (hdispatched : t.dispatched = s.dispatched) (htalk : t.Talk) : t.Inv := by
  refine h.of_talk hsent hdispatched ?_ ?_ ?_ ?_ htalk
  · intro k request hrequest
    rwa [requestOf, hcalls]
  · rw [hsent, hqueue]
    exact h.order
  · rw [hsent, hqueue, hcalls]
    exact h.known
  · rintro k response ⟨phase, hphase, hresponse⟩
    rw [phaseOf, hcalls] at hphase
    exact h.answered k response ⟨phase, hphase, hresponse⟩

/-- The phase of a call has changed, and no call has been answered by that. -/
theorem Inv.of_setPhase {s : Exchange σ} (h : s.Inv) {k : ℕ} {phase : CallPhase}
    (hphase : ∀ response, phase.response? = some response → s.Answered k response) (down : Bool)
    (hdown : s.down = true → down = true) :
    ({ s.setPhase k phase with down := down } : Exchange σ).Inv := by
  have hsame : SameTalk s { s.setPhase k phase with down := down } :=
    ⟨rfl, rfl, rfl, rfl, rfl, rfl, hdown, (sameTalk_setPhase s k phase).requests⟩
  refine h.of_talk rfl rfl hsame.requests h.order ?_ ?_ (hsame.talk h.talk)
  · exact fun j hj => (length_calls_setPhase s k phase).symm ▸ h.known j hj
  · intro j response hj
    rcases answered_setPhase hj with hj | ⟨rfl, hresponse⟩
    · exact h.answered j response hj
    · exact h.answered j response (hphase response hresponse)

/-- A call has been added, which is queued or has failed. -/
theorem Inv.of_append {s : Exchange σ} (h : s.Inv) (call : ExchangeCall) {queue : List ℕ}
    (hcall : call.phase.response? = none)
    (hqueue : queue = s.queue ∨ queue = s.queue ++ [s.calls.length]) :
    ({ s with calls := s.calls ++ [call], queue := queue } : Exchange σ).Inv := by
  have hget : ∀ k c, s.calls[k]? = some c → (s.calls ++ [call])[k]? = some c := fun k c hk => by
    rw [List.getElem?_append_left (List.getElem?_eq_some_iff.mp hk).1, hk]
  have hrequests : ∀ k request, s.requestOf k = some request →
      Option.map (·.request) (s.calls ++ [call])[k]? = some request := by
    intro k request hrequest
    obtain ⟨c, hc, rfl⟩ := Option.map_eq_some_iff.mp hrequest
    rw [hget k c hc]
    rfl
  have hlength : (s.calls ++ [call]).length = s.calls.length + 1 := List.length_append
  refine h.of_talk rfl rfl hrequests ?_ ?_ ?_ ?_
  · rcases hqueue with rfl | rfl
    · exact h.order
    · show (s.sent ++ (s.queue ++ [s.calls.length])).Pairwise (· < ·)
      rw [← List.append_assoc]
      refine List.pairwise_append.mpr ⟨h.order, List.pairwise_singleton _ _, fun k hk j hj => ?_⟩
      rw [List.mem_singleton.mp hj]
      exact h.known k hk
  · intro k hk
    show k < (s.calls ++ [call]).length
    rw [hlength]
    rcases hqueue with rfl | rfl
    · exact Nat.lt_succ_of_lt (h.known k hk)
    · rw [← List.append_assoc] at hk
      rcases List.mem_append.mp hk with hk | hk
      · exact Nat.lt_succ_of_lt (h.known k hk)
      · rw [List.mem_singleton.mp hk]
        exact Nat.lt_succ_self _
  · rintro k response ⟨phase, hphase, hresponse⟩
    obtain ⟨c, hc, rfl⟩ := Option.map_eq_some_iff.mp hphase
    rcases Nat.lt_or_ge k s.calls.length with hk | hk
    · rw [List.getElem?_append_left hk] at hc
      exact h.answered k response ⟨c.phase, congrArg _ hc, hresponse⟩
    · obtain ⟨hlt, rfl⟩ := List.getElem?_eq_some_iff.mp hc
      have hlast : k = s.calls.length := by
        rw [hlength] at hlt
        exact Nat.le_antisymm (Nat.le_of_lt_succ hlt) hk
      rw [show (s.calls ++ [call])[k] = call by simp [hlast], hcall] at hresponse
      cases hresponse
  · exact SameTalk.talk (s := s) ⟨rfl, rfl, rfl, rfl, rfl, rfl, id, hrequests⟩ h.talk

/-! ## The end of the thread -/

/-- The thread may end at any time. -/
theorem Talk.end_worker {s t : Exchange σ} (h : s.Talk) (htoHelper : t.toHelper = s.toHelper)
    (hserving : t.serving = s.serving) (hsent : t.sent = s.sent)
    (hdispatched : t.dispatched = s.dispatched)
    (hrequests : ∀ k request, s.requestOf k = some request → t.requestOf k = some request)
    (hworker : t.worker = .ended) (hdown : t.down = true) : t.Talk := by
  have hrequest : ∀ {k f}, s.RequestFrame k f → t.RequestFrame k f := by
    rintro k f ⟨request, bytes, hrequest, hrest⟩
    exact ⟨request, bytes, hrequests k request hrequest, hrest⟩
  refine .lost hworker hdown ?_
  rw [hserving, hsent, hdispatched, htoHelper]
  cases h with
  | idle _ hcount hin _ hserving =>
    rcases hserving with hserving | hserving
    · exact Or.inr (Or.inl ⟨hcount, hin, Or.inl hserving⟩)
    · exact Or.inl hserving
  | sending k rest f _ _ hlast hframe hcount _ hserving =>
    rcases hserving with ⟨got, hserving, hbytes⟩ | hserving
    · exact Or.inr (Or.inr ⟨k, got, rest, f, hserving, hlast, hrequest hframe, hcount, hbytes⟩)
    · exact Or.inl hserving
  | waiting k f _ hlast hframe hcount _ hserving =>
    rcases hserving with ⟨got, hserving, hbytes⟩ | hserving
    · exact Or.inr (Or.inr ⟨k, got, [], f, hserving, hlast, hrequest hframe, hcount,
        (List.append_nil _).trans hbytes⟩)
    · exact Or.inl hserving
  | answering k got rest bytes request reply _ _ hcount hin _ _ _ hserving =>
    rcases hserving with ⟨hserving, -⟩ | ⟨hserving, -⟩ | hserving
    · exact Or.inr (Or.inl ⟨hcount, hin, Or.inr ⟨rest, hserving⟩⟩)
    · exact Or.inr (Or.inl ⟨hcount, hin, Or.inl hserving⟩)
    · exact Or.inl hserving
  | unanswerable _ _ _ _ _ _ hserving => exact Or.inl hserving
  | lost _ _ hserving =>
    rcases hserving with hserving | hserving | ⟨k, got, rest, f, h1, h2, h3, h4⟩
    · exact Or.inl hserving
    · exact Or.inr (Or.inl hserving)
    · exact Or.inr (Or.inr ⟨k, got, rest, f, h1, h2, hrequest h3, h4⟩)

/-- The end of the thread, whatever of the bytes for it has been read. -/
theorem Inv.fail {s : Exchange σ} (h : s.Inv) (toClient : List UInt8) (k : ℕ) (error : String) :
    (({ s with toClient := toClient } : Exchange σ).fail k error).Inv := by
  have hsame := sameTalk_deliver ({ s with toClient := toClient } : Exchange σ) k
    (.unavailable ("monitor IPC unavailable: " ++ error))
  refine h.of_talk hsame.sent hsame.dispatched hsame.requests ?_ ?_ ?_ ?_
  · show ((({ s with toClient := toClient } : Exchange σ).deliver k _).sent ++ []).Pairwise (· < ·)
    rw [List.append_nil, hsame.sent]
    exact h.order.sublist (List.sublist_append_left _ _)
  · intro j hj
    have hsent : j ∈ s.sent :=
      hsame.sent ▸ (List.mem_append.mp hj).elim id fun hnil => absurd hnil List.not_mem_nil
    exact (length_calls_deliver _ k _).symm ▸ h.known j (List.mem_append_left _ hsent)
  · intro j response hj
    rcases answered_deliver (s := { s with toClient := toClient }) hj with hj | ⟨-, hj⟩
    · exact h.answered j response hj
    · cases hj
  · exact h.talk.end_worker hsame.toHelper hsame.serving hsame.sent hsame.dispatched hsame.requests
      rfl rfl

end Exchange

end Procinsh.Helper
