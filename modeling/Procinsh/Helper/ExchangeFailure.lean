import Procinsh.Helper.ExchangeRuns

/-!
# Failures of the exchange

A call whose time has passed shuts the socket down, and the thread and the helper may end.  What the helper
dispatches from then on had been sent before: see `answered_of_broken`.  Calls that nobody waits for are
not sent unless they close a session, and no other call that is queued is lost while the thread takes
requests: see `queued_of_run`.
-/

namespace Procinsh.Helper

open Ipc

namespace Exchange

variable [Target] {σ ι : Type} {dispatch : σ → MonitorRequest → ι → σ × WireResponse}

/-! ## What has been sent -/

theorem sent_takeRequest (s : Exchange σ) (k : ℕ) (queue : List ℕ) (request : MonitorRequest) :
    (s.takeRequest k queue request).sent = s.sent ∨
      (s.takeRequest k queue request).sent = s.sent ++ [k] := by
  unfold takeRequest
  dsimp only
  split
  · exact Or.inl rfl
  · split
    · exact Or.inr rfl
    · exact Or.inl (sameTalk_deliver _ k _).sent

/-- The thread has not written anything. -/
structure KeepsHelper (s t : Exchange σ) : Prop where
  sent : t.sent = s.sent
  dispatched : t.dispatched = s.dispatched
  serving : t.serving = s.serving
  toHelper : t.toHelper = s.toHelper
  down : s.down = true → t.down = true

theorem SameTalk.keepsHelper {s t : Exchange σ} (h : SameTalk s t) : KeepsHelper s t :=
  ⟨h.sent, h.dispatched, h.serving, h.toHelper, h.down⟩

theorem keepsHelper_fail (s : Exchange σ) (k : ℕ) (error : String) : KeepsHelper s (s.fail k error) :=
  { (sameTalk_deliver s k _).keepsHelper with down := fun _ => rfl }

theorem keepsHelper_receive (s : Exchange σ) (k : ℕ) (got : List UInt8) :
    KeepsHelper s (s.receive k got) := by
  unfold receive
  split
  · exact ⟨rfl, rfl, rfl, rfl, id⟩
  · exact keepsHelper_fail s k _
  · split
    · exact { (sameTalk_deliver s k _).keepsHelper with }
    · exact keepsHelper_fail s k _

theorem sent_serve (s : Exchange σ) (input : ι) (got : List UInt8) :
    (s.serve dispatch input got).sent = s.sent := by
  unfold serve
  split
  · rfl
  · rfl
  · split
    · rfl
    · rfl

theorem down_serve (s : Exchange σ) (input : ι) (got : List UInt8) :
    (s.serve dispatch input got).down = s.down := by
  unfold serve
  split
  · rfl
  · rfl
  · split
    · rfl
    · rfl

/-- What has been sent stays the beginning of what has been sent later. -/
theorem sent_prefix_of_step {s t : Exchange σ} {a : ExchangeAction ι}
    (hstep : s.step dispatch a = some t) : s.sent <+: t.sent := by
  cases stepped_of_step hstep with
  | queued _ _ => exact List.prefix_rfl
  | refused _ => exact List.prefix_rfl
  | unchanged => exact List.prefix_rfl
  | phase _ _ _ _ => exact List.prefix_rfl
  | @dequeue k queue request _ _ _ =>
    rcases sent_takeRequest s k queue request with h | h
    · rw [h]
    · rw [h]
      exact List.prefix_append _ _
  | clientWrite _ _ _ _ => exact List.prefix_rfl
  | clientRead _ _ _ => rw [(keepsHelper_receive _ _ _).sent]
  | clientFail _ => rw [(keepsHelper_fail s _ _).sent]
  | helperRead _ _ _ => rw [sent_serve]
  | helperWrite _ _ _ _ => exact List.prefix_rfl
  | helperFail => exact List.prefix_rfl

theorem sent_prefix_of_run {s t : Exchange σ} {as : List (ExchangeAction ι)}
    (hrun : run (step dispatch) s as = some t) : s.sent <+: t.sent :=
  run_invariant (I := fun t => s.sent <+: t.sent)
    (fun _ _ _ h hstep => h.trans (sent_prefix_of_step hstep)) List.prefix_rfl hrun

/-! ## A broken connection -/

/-- The connection has been shut down, or one side of it has ended. -/
def Broken (s : Exchange σ) : Prop := s.down = true ∨ s.worker = .ended ∨ s.serving = .ended

/-- No more than the first `n` requests that are sent reach the helper. -/
structure Cut (n : ℕ) (s : Exchange σ) : Prop where
  dispatched : s.dispatched.length ≤ n
  cut : s.serving = .ended ∨ (s.down = true ∧ (s.sent.length ≤ n ∨
    (s.toHelper = [] ∧ (s.worker = .ended ∨ ∃ k rest, s.worker = .sending k rest))))

theorem Inv.length_dispatched_le {s : Exchange σ} (h : s.Inv) : s.dispatched.length ≤ s.sent.length := by
  have hlength := congrArg List.length h.requests
  rw [List.length_map, List.length_map, List.length_take] at hlength
  exact hlength.trans_le (Nat.min_le_right _ _)

theorem cut_of_broken {s : Exchange σ} (h : s.Inv) (hbroken : s.Broken) : s.Cut s.sent.length := by
  refine ⟨h.length_dispatched_le, ?_⟩
  rcases hbroken with hdown | hended | hended
  · exact Or.inr ⟨hdown, Or.inl le_rfl⟩
  · cases h.talk with
    | lost _ hdown => exact Or.inr ⟨hdown, Or.inl le_rfl⟩
    | idle hother => cases hended.symm.trans hother
    | sending _ _ _ hother => cases hended.symm.trans hother
    | waiting _ _ hother => cases hended.symm.trans hother
    | answering _ _ _ _ _ _ hother => cases hended.symm.trans hother
    | unanswerable _ hother => cases hended.symm.trans hother
  · exact Or.inl hended

theorem KeepsHelper.cut {s t : Exchange σ} {n : ℕ} (h : KeepsHelper s t) (hs : s.Cut n)
    (hstuck : (s.worker = .ended ∨ ∃ k rest, s.worker = .sending k rest) →
      t.worker = .ended ∨ ∃ k rest, t.worker = .sending k rest) : t.Cut n := by
  refine ⟨h.dispatched.symm ▸ hs.dispatched, ?_⟩
  rw [h.serving, h.sent, h.toHelper]
  exact hs.cut.imp_right (And.imp h.down (Or.imp_right (And.imp_right hstuck)))

/-- Every step keeps what reaches the helper cut off. -/
theorem cut_step {s t : Exchange σ} {a : ExchangeAction ι} {n : ℕ} (hinv : s.Inv) (h : s.Cut n)
    (hstep : s.step dispatch a = some t) : t.Cut n := by
  have hnext : t.Inv := inv_step s a t hinv hstep
  cases stepped_of_step hstep with
  | queued _ _ => exact ⟨h.dispatched, h.cut⟩
  | refused _ => exact ⟨h.dispatched, h.cut⟩
  | unchanged => exact h
  | phase _ _ _ hdown => exact ⟨h.dispatched, h.cut.imp_right (And.imp_left hdown)⟩
  | @dequeue k queue request hworker _ _ =>
    have hskip : ({ s with queue := queue } : Exchange σ).Cut n := ⟨h.dispatched, h.cut⟩
    unfold takeRequest
    dsimp only
    split
    · exact hskip
    · split
      · -- what is sent now stays in the thread, for nothing is written after a shutdown
        refine ⟨h.dispatched, h.cut.imp_right (And.imp_right fun _ => Or.inr ⟨?_, Or.inr ⟨_, _, rfl⟩⟩)⟩
        cases hinv.talk with
        | idle _ _ hin => exact hin
        | sending _ _ _ hother => cases hworker.symm.trans hother
        | waiting _ _ hother => cases hworker.symm.trans hother
        | answering _ _ _ _ _ _ hother => cases hworker.symm.trans hother
        | unanswerable _ hother => cases hworker.symm.trans hother
        | lost hother => cases hworker.symm.trans hother
      · exact (keepsHelper_fail _ k _).cut hskip fun _ => Or.inl rfl
  | clientWrite _ hdown _ _ =>
    exact ⟨h.dispatched, Or.inl (h.cut.resolve_right fun hcut => hdown hcut.1)⟩
  | clientRead hworker _ _ =>
    refine (keepsHelper_receive _ _ _).cut (s := { s with toClient := _ }) ⟨h.dispatched, h.cut⟩ ?_
    rintro (hother | ⟨_, _, hother⟩)
    · cases hworker.symm.trans hother
    · cases hworker.symm.trans hother
  | clientFail _ => exact (keepsHelper_fail s _ _).cut h fun _ => Or.inl rfl
  | @helperRead m got input hserving hpos hm =>
    rcases h.cut with hended | ⟨hdown, hsent | ⟨hin, -⟩⟩
    · cases hserving.symm.trans hended
    · have hlength : (serve dispatch { s with toHelper := s.toHelper.drop m } input
          (got ++ s.toHelper.take m)).sent.length ≤ n := by
        rw [sent_serve]
        exact hsent
      exact ⟨hnext.length_dispatched_le.trans hlength,
        Or.inr ⟨(down_serve _ _ _).trans hdown, Or.inl hlength⟩⟩
    · rw [hin, List.length_nil] at hm
      omega
  | helperWrite hserving hdown _ _ =>
    cases hserving.symm.trans (h.cut.resolve_right fun hcut => hdown hcut.1)
  | helperFail => exact ⟨h.dispatched, Or.inl rfl⟩

/-- Once the connection is broken, no request reaches the helper but those that had been sent, of which
one at most may be on its way: the helper dispatches no more than that one, and whatever call is answered
from then on had been sent before. -/
theorem answered_of_broken {helper : σ} {as bs : List (ExchangeAction ι)} {s t : Exchange σ}
    (hs : run (step dispatch) (new helper) as = some s) (hbroken : s.Broken)
    (ht : run (step dispatch) s bs = some t) :
    t.dispatched.length ≤ s.sent.length ∧ s.sent.length ≤ s.dispatched.length + 1 ∧
      ∀ k response, t.Answered k response → k ∈ s.sent ∧ t.AnswerFor k response := by
  have hinv : s.Inv := run_invariant inv_step (inv_new helper) hs
  obtain ⟨hlast, hcut⟩ : t.Inv ∧ t.Cut s.sent.length :=
    run_invariant (I := fun t => t.Inv ∧ t.Cut s.sent.length)
      (fun u a v h hstep => ⟨inv_step u a v h.1 hstep, cut_step h.1 h.2 hstep⟩)
      ⟨hinv, cut_of_broken hinv hbroken⟩ ht
  refine ⟨hcut.dispatched, hinv.single, fun k response hk => ?_⟩
  have hanswer := hlast.answered k response hk
  refine ⟨?_, hanswer⟩
  obtain ⟨i, request, reply, hi, hdispatched, -⟩ := hanswer
  have hlt : i < s.sent.length :=
    Nat.lt_of_lt_of_le (List.getElem?_eq_some_iff.mp hdispatched).1 hcut.dispatched
  obtain ⟨rest, hrest⟩ := sent_prefix_of_run ht
  rw [← hrest, List.getElem?_append_left hlt] at hi
  exact List.mem_of_getElem? hi

/-! ## Calls that are queued -/

/-- The requests of the calls are still theirs, and nobody has begun to wait for a call. -/
structure KeepsCalls (s t : Exchange σ) : Prop where
  requests : ∀ k request, s.requestOf k = some request → t.requestOf k = some request
  gone : ∀ k, s.phaseOf k = some .gone → t.phaseOf k = some .gone

theorem keepsCalls_of_calls {s t : Exchange σ} (h : t.calls = s.calls) : KeepsCalls s t :=
  ⟨fun k request hk => by rwa [requestOf, h], fun k hk => by rwa [phaseOf, h]⟩

theorem keepsCalls_append (s : Exchange σ) (call : ExchangeCall) (queue : List ℕ) :
    KeepsCalls s { s with calls := s.calls ++ [call], queue := queue } := by
  have hget : ∀ k c, s.calls[k]? = some c → (s.calls ++ [call])[k]? = some c := fun k c hk => by
    rw [List.getElem?_append_left (List.getElem?_eq_some_iff.mp hk).1, hk]
  constructor
  · intro k request hk
    obtain ⟨c, hc, rfl⟩ := Option.map_eq_some_iff.mp hk
    exact congrArg _ (hget k c hc)
  · intro k hk
    obtain ⟨c, hc, hphase⟩ := Option.map_eq_some_iff.mp hk
    exact (congrArg (Option.map _) (hget k c hc)).trans (congrArg some hphase)

theorem keepsCalls_setPhase {s : Exchange σ} {k : ℕ} {delivered : Option Delivery} (phase : CallPhase)
    (hold : s.phaseOf k = some (.waiting delivered)) : KeepsCalls s (s.setPhase k phase) := by
  refine ⟨(sameTalk_setPhase s k phase).requests, fun j hj => ?_⟩
  have hne : k ≠ j := by
    rintro rfl
    cases hold.symm.trans hj
  rw [phaseOf_setPhase_of_ne s phase hne, hj]

theorem keepsCalls_deliver (s : Exchange σ) (k : ℕ) (delivery : Delivery) :
    KeepsCalls s (s.deliver k delivery) := by
  unfold deliver
  split
  · next hold => exact keepsCalls_setPhase _ hold
  · exact keepsCalls_of_calls rfl

theorem keepsCalls_receive (s : Exchange σ) (k : ℕ) (got : List UInt8) :
    KeepsCalls s (s.receive k got) := by
  have hdeliver := keepsCalls_deliver s k
  unfold receive
  split
  · exact keepsCalls_of_calls rfl
  · exact ⟨(hdeliver _).requests, (hdeliver _).gone⟩
  · split
    · exact ⟨(hdeliver _).requests, (hdeliver _).gone⟩
    · exact ⟨(hdeliver _).requests, (hdeliver _).gone⟩

theorem keepsCalls_takeRequest (s : Exchange σ) (k : ℕ) (queue : List ℕ) (request : MonitorRequest) :
    KeepsCalls s (s.takeRequest k queue request) := by
  have hdeliver := keepsCalls_deliver { s with queue := queue } k
  unfold takeRequest
  dsimp only
  split
  · exact keepsCalls_of_calls rfl
  · split
    · exact keepsCalls_of_calls rfl
    · exact ⟨(hdeliver _).requests, (hdeliver _).gone⟩

theorem calls_serve (s : Exchange σ) (input : ι) (got : List UInt8) :
    (s.serve dispatch input got).calls = s.calls := by
  unfold serve
  split
  · rfl
  · rfl
  · split
    · rfl
    · rfl

theorem keepsCalls_step {s t : Exchange σ} {a : ExchangeAction ι}
    (hstep : s.step dispatch a = some t) : KeepsCalls s t := by
  cases stepped_of_step hstep with
  | queued _ _ => exact keepsCalls_append s _ _
  | refused _ => exact keepsCalls_append s _ _
  | unchanged => exact keepsCalls_of_calls rfl
  | @phase k delivered new down hold _ _ =>
    have hphase := keepsCalls_setPhase new hold
    exact ⟨hphase.requests, hphase.gone⟩
  | dequeue _ _ _ => exact keepsCalls_takeRequest s _ _ _
  | clientWrite _ _ _ _ => exact keepsCalls_of_calls rfl
  | @clientRead k n got _ _ _ =>
    have hread := keepsCalls_receive { s with toClient := s.toClient.drop n } k
    exact ⟨(hread _).requests, (hread _).gone⟩
  | clientFail _ =>
    have hdeliver := keepsCalls_deliver s
    exact ⟨(hdeliver _ _).requests, (hdeliver _ _).gone⟩
  | helperRead _ _ _ => exact keepsCalls_of_calls (calls_serve _ _ _)
  | helperWrite _ _ _ _ => exact keepsCalls_of_calls rfl
  | helperFail => exact keepsCalls_of_calls rfl

/-- The thread skips a request that nobody waits for. -/
theorem takeRequest_of_gone {s : Exchange σ} {k : ℕ} (queue : List ℕ) {request : MonitorRequest}
    (hgone : s.phaseOf k = some .gone) (hclose : isClose request = false) :
    s.takeRequest k queue request = { s with queue := queue } := by
  have hskip : ({ s with queue := queue } : Exchange σ).isGone k = true := by
    unfold isGone
    rw [show ({ s with queue := queue } : Exchange σ).phaseOf k = _ from hgone]
  rw [takeRequest]
  dsimp only
  rw [if_pos ⟨hskip, by rw [hclose]; exact Bool.false_ne_true⟩]

/-- What the thread does with the request that it takes from the queue. -/
theorem takeRequest_cases (s : Exchange σ) (k : ℕ) (queue : List ℕ) (request : MonitorRequest) :
    (s.phaseOf k = some .gone ∧ isClose request = false) ∨ k ∈ (s.takeRequest k queue request).sent ∨
      (s.takeRequest k queue request).worker = .ended := by
  unfold takeRequest
  dsimp only
  split
  · next hskip =>
    refine Or.inl ⟨?_, Bool.eq_false_of_not_eq_true hskip.2⟩
    have hgone := hskip.1
    unfold isGone at hgone
    split at hgone
    · next hphase => exact hphase
    · cases hgone
  · split
    · exact Or.inr (Or.inl (List.mem_append_right _ (List.mem_singleton_self k)))
    · exact Or.inr (Or.inr rfl)

theorem queue_takeRequest (s : Exchange σ) (k : ℕ) (queue : List ℕ) (request : MonitorRequest) :
    (s.takeRequest k queue request).queue = queue ∨
      (s.takeRequest k queue request).worker = .ended := by
  unfold takeRequest
  dsimp only
  split
  · exact Or.inl rfl
  · split
    · exact Or.inl rfl
    · exact Or.inr rfl

theorem queue_receive (s : Exchange σ) (k : ℕ) (got : List UInt8) :
    (s.receive k got).queue = s.queue ∨ (s.receive k got).worker = .ended := by
  unfold receive
  split
  · exact Or.inl rfl
  · exact Or.inr rfl
  · split
    · exact Or.inl (queue_deliver s k _)
    · exact Or.inr rfl

variable (dispatch) in
theorem queue_worker_serve (s : Exchange σ) (input : ι) (got : List UInt8) :
    (s.serve dispatch input got).queue = s.queue ∧ (s.serve dispatch input got).worker = s.worker := by
  unfold serve
  split
  · exact ⟨rfl, rfl⟩
  · exact ⟨rfl, rfl⟩
  · split
    · exact ⟨rfl, rfl⟩
    · exact ⟨rfl, rfl⟩

/-- What can have become of a call that was queued. -/
structure Handled (k : ℕ) (asked : MonitorRequest) (s : Exchange σ) : Prop where
  request : s.requestOf k = some asked
  place : k ∈ s.queue ∨ k ∈ s.sent ∨ s.worker = .ended ∨
    (s.phaseOf k = some .gone ∧ isClose asked = false)

/-- The thread does not begin again. -/
theorem ended_of_step {s t : Exchange σ} {a : ExchangeAction ι} (h : s.worker = .ended)
    (hstep : s.step dispatch a = some t) : t.worker = .ended := by
  cases stepped_of_step hstep with
  | queued _ hopen => exact absurd h hopen
  | refused _ => exact h
  | unchanged => exact h
  | phase _ _ _ _ => exact h
  | dequeue hworker _ _ => cases h.symm.trans hworker
  | clientWrite hworker _ _ _ => cases h.symm.trans hworker
  | clientRead hworker _ _ => cases h.symm.trans hworker
  | clientFail hworker => rfl
  | helperRead _ _ _ => exact (queue_worker_serve _ _ _ _).2.trans h
  | helperWrite _ _ _ _ => exact h
  | helperFail => exact h

/-- A call that is queued stays in the queue until the thread takes its request. -/
theorem queued_of_step {s t : Exchange σ} {a : ExchangeAction ι} {k : ℕ} {request : MonitorRequest}
    (hrequest : s.requestOf k = some request) (hk : k ∈ s.queue)
    (hstep : s.step dispatch a = some t) :
    k ∈ t.queue ∨ k ∈ t.sent ∨ t.worker = .ended ∨
      (s.phaseOf k = some .gone ∧ isClose request = false) := by
  cases stepped_of_step hstep with
  | queued _ _ => exact Or.inl (List.mem_append_left _ hk)
  | refused _ => exact Or.inl hk
  | unchanged => exact Or.inl hk
  | phase _ _ _ _ => exact Or.inl hk
  | @dequeue j queue asked _ hqueue hasked =>
    rcases List.mem_cons.mp (hqueue ▸ hk) with rfl | hk
    · obtain rfl := Option.some.inj (hasked.symm.trans hrequest)
      rcases takeRequest_cases s k queue asked with hgone | hsent | hended
      · exact Or.inr (Or.inr (Or.inr hgone))
      · exact Or.inr (Or.inl hsent)
      · exact Or.inr (Or.inr (Or.inl hended))
    · rcases queue_takeRequest s j queue asked with hrest | hended
      · exact Or.inl (hrest.symm ▸ hk)
      · exact Or.inr (Or.inr (Or.inl hended))
  | clientWrite _ _ _ _ => exact Or.inl hk
  | @clientRead j n got _ _ _ =>
    rcases queue_receive { s with toClient := s.toClient.drop n } j (got ++ s.toClient.take n) with
      hrest | hended
    · exact Or.inl (hrest.symm ▸ hk)
    · exact Or.inr (Or.inr (Or.inl hended))
  | clientFail _ => exact Or.inr (Or.inr (Or.inl rfl))
  | helperRead _ _ _ => exact Or.inl ((queue_worker_serve _ _ _ _).1.symm ▸ hk)
  | helperWrite _ _ _ _ => exact Or.inl hk
  | helperFail => exact Or.inl hk

theorem Handled.step {s t : Exchange σ} {a : ExchangeAction ι} {k : ℕ} {request : MonitorRequest}
    (h : s.Handled k request) (hstep : s.step dispatch a = some t) : t.Handled k request := by
  have hkeeps := keepsCalls_step hstep
  have hgone : s.phaseOf k = some .gone ∧ isClose request = false →
      t.phaseOf k = some .gone ∧ isClose request = false := And.imp_left (hkeeps.gone k)
  refine ⟨hkeeps.requests k request h.request, ?_⟩
  rcases h.place with hqueue | hsent | hended | hskip
  · exact (queued_of_step h.request hqueue hstep).imp_right (Or.imp_right (Or.imp_right hgone))
  · exact Or.inr (Or.inl ((sent_prefix_of_step hstep).subset hsent))
  · exact Or.inr (Or.inr (Or.inl (ended_of_step hended hstep)))
  · exact Or.inr (Or.inr (Or.inr (hgone hskip)))

/-- The request of a call that nobody waits for is not sent if it has not been sent before. -/
structure Abandoned (k : ℕ) (asked : MonitorRequest) (s : Exchange σ) : Prop where
  request : s.requestOf k = some asked
  gone : s.phaseOf k = some .gone
  unsent : k ∉ s.sent

theorem Abandoned.step {s t : Exchange σ} {a : ExchangeAction ι} {k : ℕ} {request : MonitorRequest}
    (hclose : isClose request = false) (h : s.Abandoned k request)
    (hstep : s.step dispatch a = some t) : t.Abandoned k request := by
  have hkeeps := keepsCalls_step hstep
  refine ⟨hkeeps.requests k request h.request, hkeeps.gone k h.gone, ?_⟩
  cases stepped_of_step hstep with
  | queued _ _ => exact h.unsent
  | refused _ => exact h.unsent
  | unchanged => exact h.unsent
  | phase _ _ _ _ => exact h.unsent
  | @dequeue j queue asked _ hqueue hasked =>
    by_cases hjk : j = k
    · subst hjk
      obtain rfl := Option.some.inj (hasked.symm.trans h.request)
      rw [takeRequest_of_gone queue h.gone hclose]
      exact h.unsent
    · rcases sent_takeRequest s j queue asked with hsent | hsent
      · rw [hsent]
        exact h.unsent
      · rw [hsent]
        intro hmem
        rcases List.mem_append.mp hmem with hmem | hmem
        · exact h.unsent hmem
        · exact hjk (List.mem_singleton.mp hmem).symm
  | clientWrite _ _ _ _ => exact h.unsent
  | clientRead _ _ _ => exact (keepsHelper_receive _ _ _).sent.symm ▸ h.unsent
  | clientFail _ => exact (keepsHelper_fail s _ _).sent.symm ▸ h.unsent
  | helperRead _ _ _ => exact (sent_serve _ _ _).symm ▸ h.unsent
  | helperWrite _ _ _ _ => exact h.unsent
  | helperFail => exact h.unsent

/-- A call that is queued stays in the queue, is sent, fails with the thread, or is skipped because nobody
waits for it; it is skipped only if it does not close a session.  What nobody waits for when it is still
queued is never sent, unless it closes a session. -/
theorem queued_of_run {helper : σ} {as bs : List (ExchangeAction ι)} {s t : Exchange σ} {k : ℕ}
    {request : MonitorRequest} (hs : run (step dispatch) (new helper) as = some s)
    (hk : k ∈ s.queue) (hrequest : s.requestOf k = some request)
    (ht : run (step dispatch) s bs = some t) :
    (k ∈ t.queue ∨ k ∈ t.sent ∨ t.worker = .ended ∨
        (t.phaseOf k = some .gone ∧ isClose request = false)) ∧
      (s.phaseOf k = some .gone → isClose request = false → k ∉ t.sent) := by
  have hinv : s.Inv := run_invariant inv_step (inv_new helper) hs
  constructor
  · have hhandled : t.Handled k request :=
      run_invariant (fun _ _ _ h hstep => Handled.step h hstep) ⟨hrequest, Or.inl hk⟩ ht
    exact hhandled.place
  · intro hgone hclose
    have hunsent : k ∉ s.sent := fun hsent =>
      lt_irrefl k ((List.pairwise_append.mp hinv.order).2.2 k hsent k hk)
    have habandoned : t.Abandoned k request :=
      run_invariant (fun _ _ _ h hstep => Abandoned.step hclose h hstep)
        ⟨hrequest, hgone, hunsent⟩ ht
    exact habandoned.unsent

/-! ## Runs -/

/-- A call whose time passes after its request has been written. -/
def testElapsed : List (ExchangeAction Unit) :=
  [.exchange (.poll 7), .exchange (.poll 8), .dequeue, .clientWrite 13, .elapse 0]

omit [Target] in
/-- The helper finds the request, and cannot answer it. -/
theorem answered_of_broken_testElapsed :
    let _ : Target := ⟨false⟩
    ∃ s t, run (step testDispatch) (new 0) testElapsed = some s ∧
      run (step testDispatch) s [.helperRead 4 (), .helperRead 9 (), .clientFail "", .disconnect 1] =
        some t ∧ s.dispatched.length = 0 ∧ t.dispatched.length = 1 ∧
      ∀ k response, t.Answered k response → k ∈ s.sent ∧ t.AnswerFor k response := by
  intro _
  have hsome : (run (step testDispatch) (new 0) testElapsed).map
      (fun s => (s.down, s.dispatched.length, (run (step testDispatch) s
        [.helperRead 4 (), .helperRead 9 (), .clientFail "", .disconnect 1]).map
          fun t => t.dispatched.length)) = some (true, 0, some 1) := by decide +kernel
  obtain ⟨s, hs, hvalues⟩ := Option.map_eq_some_iff.mp hsome
  obtain ⟨hdown, hrest⟩ := Prod.mk.inj hvalues
  obtain ⟨hbefore, hafter⟩ := Prod.mk.inj hrest
  obtain ⟨t, ht, hafter⟩ := Option.map_eq_some_iff.mp hafter
  exact ⟨s, t, hs, ht, hbefore, hafter, (answered_of_broken hs (Or.inl hdown) ht).2.2⟩

/-- A call that is cancelled while it is queued, and the end of a session. -/
def testCancelled : List (ExchangeAction Unit) :=
  [.exchange (.poll 7), .close 3, .cancel 0]

omit [Target] in
/-- The request that nobody waits for is skipped, and the session is closed. -/
theorem queued_of_run_testCancelled :
    let _ : Target := ⟨false⟩
    ∃ s t, run (step testDispatch) (new 0) testCancelled = some s ∧
      run (step testDispatch) s [.dequeue, .dequeue] = some t ∧ t.sent = [1] ∧ 0 ∉ t.sent := by
  intro _
  have hsome : (run (step testDispatch) (new 0) testCancelled).map
      (fun s => (s.queue, s.requestOf 0, s.isGone 0,
        (run (step testDispatch) s [.dequeue, .dequeue]).map (·.sent))) =
          some ([0, 1], some (.poll 7), true, some [1]) := by decide +kernel
  obtain ⟨s, hs, hvalues⟩ := Option.map_eq_some_iff.mp hsome
  obtain ⟨hqueue, hrest⟩ := Prod.mk.inj hvalues
  obtain ⟨hrequest, hrest⟩ := Prod.mk.inj hrest
  obtain ⟨hgone, hafter⟩ := Prod.mk.inj hrest
  obtain ⟨t, ht, hsent⟩ := Option.map_eq_some_iff.mp hafter
  have hphase : s.phaseOf 0 = some .gone := by
    unfold isGone at hgone
    split at hgone
    · next hphase => exact hphase
    · cases hgone
  have hqueued : 0 ∈ s.queue := hqueue ▸ List.mem_cons_self
  exact ⟨s, t, hs, ht, hsent, (queued_of_run hs hqueued hrequest ht).2 hphase rfl⟩

end Exchange

end Procinsh.Helper
