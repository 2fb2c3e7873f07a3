import Procinsh.Hosts.Link

/-!
# Responses of an agent link match its requests

What one step can do to one call is stated once, in `CallStep`.  The invariant `LinkInv` ties the
pending map to the calls, and the history `CompletedAt` ties the response of a call to the step that
delivered it.
-/

namespace Procinsh

namespace LinkState

variable {s t : LinkState} {a : LinkAction} {k : ℕ} {c : Call}

/-! ## What one step does to one call -/

/-- The phases of a registered call that follow each other without an outcome. -/
def Phase.Follows : Phase → Phase → Prop
  | .registered, .waiting | .registered, .unsent | .waiting, .timedOut | .waiting, .abandoned => True
  | _, _ => False

/-- What a step from `s` to `t` can do to the call `c` at position `k`. -/
inductive CallStep (s t : LinkState) (k : ℕ) (c : Call) : Call → Prop
  | stay : CallStep s t k c c
  | advance (phase : Phase) (hphase : Phase.Follows c.phase phase) :
    CallStep s t k c { c with phase := phase }
  | accept (link : AgentLink) (hphase : c.phase = .drawn)
    (hlink : s.link.register c.id k = .ok link) :
    CallStep s t k c { c with phase := .registered }
  | refuse (error : String) (hphase : c.phase = .drawn)
    (herror : s.link.register c.id k = .error error) :
    CallStep s t k c { c with phase := .done (.failed error) }
  | forget (error : String) (hphase : c.phase = .unsent ∨ c.phase = .timedOut)
    (hwaiter : t.link.waiter c.id = none) :
    CallStep s t k c { c with phase := .done (.failed error) }
  | answer (response : AgentResponse) (hphase : c.phase = .waiting)
    (hslot : c.slot = .filled response) :
    CallStep s t k c { c with phase := .done (.answered response) }
  | orphan (hphase : c.phase = .waiting) (hslot : c.slot = .dropped) :
    CallStep s t k c { c with phase := .done (.failed "agent link closed") }
  | fill (response : AgentResponse) (hslot : c.slot = .empty)
    (hdelivering : (k, response) ∈ s.delivering) :
    CallStep s t k c { c with slot := .filled response }
  | drop (hwaiter : s.link.waiter c.id = some k) (hclosed : t.link.pending = none) :
    CallStep s t k c { c with slot := .dropped }

/-- A call keeps its id. -/
lemma CallStep.id_eq {c' : Call} (h : CallStep s t k c c') : c'.id = c.id := by
  cases h <;> rfl

/-- What it means that a call stands in a phase. -/
lemma callAt?_eq_some {phase : Phase} :
    s.callAt? k phase = some c ↔ s.calls[k]? = some c ∧ c.phase = phase := by
  simp [callAt?, Option.filter_eq_some_iff]

/-- A step that only moves the call `j` to a phase treats every call as `CallStep` says. -/
private lemma callStep_setPhase {j : ℕ} {d : Call} {phase : Phase}
    (hcalls : t.calls = (s.setPhase j phase).calls) (hd : s.calls[j]? = some d)
    (hstep : CallStep s t j d { d with phase := phase }) (hc : s.calls[k]? = some c) :
    ∃ c', t.calls[k]? = some c' ∧ CallStep s t k c c' := by
  rw [hcalls, setPhase, List.getElem?_modify, hc]
  by_cases hjk : j = k
  · subst hjk
    obtain rfl : d = c := Option.some.inj (hd.symm.trans hc)
    exact ⟨{ d with phase := phase }, by simp, hstep⟩
  · exact ⟨c, by simp [hjk], CallStep.stay⟩

/-- A step that leaves the calls alone treats every call as `CallStep` says. -/
private lemma callStep_of_calls_eq (hcalls : t.calls = s.calls) (hc : s.calls[k]? = some c) :
    ∃ c', t.calls[k]? = some c' ∧ CallStep s t k c c' :=
  ⟨c, by rw [hcalls, hc], CallStep.stay⟩

/-- Every step treats every call as `CallStep` says. -/
lemma step_call (hstep : s.step a = some t) (hc : s.calls[k]? = some c) :
    ∃ c', t.calls[k]? = some c' ∧ CallStep s t k c c' := by
  cases a with
  | request request =>
    obtain rfl := Option.some.inj hstep
    have hlt : k < s.calls.length := (List.getElem?_eq_some_iff.mp hc).1
    exact ⟨c, by simp [List.getElem?_append_left hlt, hc], CallStep.stay⟩
  | register j =>
    obtain ⟨d, hd, rfl⟩ := Option.map_eq_some_iff.mp hstep
    obtain ⟨hd, hphase⟩ := callAt?_eq_some.mp hd
    cases hreg : s.link.register d.id j with
    | ok link => exact callStep_setPhase rfl hd (.accept link hphase hreg) hc
    | error error => exact callStep_setPhase rfl hd (.refuse error hphase hreg) hc
  | enqueue j =>
    obtain ⟨d, hd, rfl⟩ := Option.map_eq_some_iff.mp hstep
    obtain ⟨hd, hphase⟩ := callAt?_eq_some.mp hd
    cases s.link.trySend (.request d.id d.request) with
    | some link => exact callStep_setPhase rfl hd (.advance _ (by rw [hphase]; trivial)) hc
    | none => exact callStep_setPhase rfl hd (.advance _ (by rw [hphase]; trivial)) hc
  | forgetUnsent j =>
    obtain ⟨d, hd, rfl⟩ := Option.map_eq_some_iff.mp hstep
    obtain ⟨hd, hphase⟩ := callAt?_eq_some.mp hd
    refine callStep_setPhase rfl hd (.forget _ (Or.inl hphase) ?_) hc
    simp [AgentLink.waiter_forget]
  | resolve j =>
    obtain ⟨d, hd, hstep⟩ := Option.bind_eq_some_iff.mp hstep
    obtain ⟨hd, hphase⟩ := callAt?_eq_some.mp hd
    split at hstep
    · cases hstep
    · next response hslot =>
      obtain rfl := Option.some.inj hstep
      exact callStep_setPhase rfl hd (.answer response hphase hslot) hc
    · next hslot =>
      obtain rfl := Option.some.inj hstep
      exact callStep_setPhase rfl hd (.orphan hphase hslot) hc
  | elapse j =>
    obtain ⟨d, hd, rfl⟩ := Option.map_eq_some_iff.mp hstep
    obtain ⟨hd, hphase⟩ := callAt?_eq_some.mp hd
    exact callStep_setPhase rfl hd (.advance _ (by rw [hphase]; trivial)) hc
  | forgetTimedOut j =>
    obtain ⟨d, hd, rfl⟩ := Option.map_eq_some_iff.mp hstep
    obtain ⟨hd, hphase⟩ := callAt?_eq_some.mp hd
    refine callStep_setPhase rfl hd (.forget _ (Or.inr hphase) ?_) hc
    simp [AgentLink.waiter_forget]
  | abandon j =>
    obtain ⟨d, hd, rfl⟩ := Option.map_eq_some_iff.mp hstep
    obtain ⟨hd, hphase⟩ := callAt?_eq_some.mp hd
    exact callStep_setPhase rfl hd (.advance _ (by rw [hphase]; trivial)) hc
  | complete id response =>
    simp only [step] at hstep
    split at hstep <;> obtain rfl := Option.some.inj hstep <;> exact callStep_of_calls_eq rfl hc
  | deliver j =>
    obtain ⟨⟨i, response⟩, hd, rfl⟩ := Option.map_eq_some_iff.mp hstep
    have hmem : (i, response) ∈ s.delivering := List.mem_of_getElem? hd
    simp only [fill, List.getElem?_modify, hc]
    by_cases hik : i = k
    · subst hik
      by_cases hslot : c.slot = .empty
      · exact ⟨{ c with slot := .filled response }, by simp [hslot], .fill response hslot hmem⟩
      · exact ⟨c, by simp [hslot], .stay⟩
    · exact ⟨c, by simp [hik], .stay⟩
  | closeSession session =>
    obtain rfl := Option.some.inj hstep
    exact callStep_of_calls_eq rfl hc
  | enqueueClose j =>
    obtain ⟨d, -, rfl⟩ := Option.map_eq_some_iff.mp hstep
    exact callStep_of_calls_eq rfl hc
  | send message =>
    obtain rfl := Option.some.inj hstep
    exact callStep_of_calls_eq rfl hc
  | takeOutgoing =>
    simp only [step] at hstep
    split at hstep
    · cases hstep
    · obtain rfl := Option.some.inj hstep
      exact callStep_of_calls_eq rfl hc
  | dropReceiver =>
    obtain rfl := Option.some.inj hstep
    exact callStep_of_calls_eq rfl hc
  | close =>
    obtain rfl := Option.some.inj hstep
    simp only [dropSenders, List.getElem?_mapIdx, hc, Option.map_some]
    by_cases hwaiter : s.link.waiter c.id = some k
    · exact ⟨{ c with slot := .dropped }, by simp [hwaiter], .drop hwaiter rfl⟩
    · exact ⟨c, by simp [hwaiter], .stay⟩

/-! ## What one step does to the link -/

/-- What a step from `s` to `t` can do to the pending map. -/
inductive PendingStep (s t : LinkState) : Prop
  | stay (hpending : t.link.pending = s.link.pending)
  | register (k : ℕ) (c : Call) (pending : SortedMap ℕ ℕ) (hcall : s.calls[k]? = some c)
    (hphase : c.phase = .drawn) (hpending : s.link.pending = some pending)
    (hroom : pending.size < PENDING_LIMIT)
    (hinsert : t.link.pending = some (pending.insert c.id k))
    (hcall' : t.calls[k]? = some { c with phase := .registered })
  | forget (id : ℕ) (hforget : t.link.pending = (s.link.forget id).pending)
  | close (hclosed : t.link.pending = none)

/-- What a step `a` from `s` to `t` does to the link and to the lists of tasks. -/
structure LinkStep (s : LinkState) (a : LinkAction) (t : LinkState) : Prop where
  next_le : s.link.next ≤ t.link.next
  pending : PendingStep s t
  /-- Only a new request adds a call. -/
  calls : t.calls.length = s.calls.length ∨ ∃ request, t.link.next = s.link.next + 1 ∧
    t.calls = s.calls ++ [⟨s.link.next, request, .drawn, .empty⟩]
  /-- Only a completion of a pending id adds a delivery, and the id is not pending after it. -/
  delivering : ∀ d ∈ t.delivering, d ∈ s.delivering ∨
    ∃ id, a = .complete id d.2 ∧ s.link.waiter id = some d.1 ∧ t.link = s.link.forget id ∧
      t.calls = s.calls

/-- A step that changes neither the pending map nor the deliveries nor the number of calls. -/
private lemma linkStep_of_eq (hnext : s.link.next ≤ t.link.next)
    (hpending : t.link.pending = s.link.pending) (hcalls : t.calls.length = s.calls.length)
    (hdelivering : t.delivering = s.delivering) : LinkStep s a t :=
  ⟨hnext, .stay hpending, Or.inl hcalls, fun _ hd => Or.inl (hdelivering ▸ hd)⟩

/-- A step that forgets an id and keeps the deliveries and the number of calls. -/
private lemma linkStep_of_forget {id : ℕ} (hlink : t.link = s.link.forget id)
    (hcalls : t.calls.length = s.calls.length) (hdelivering : t.delivering = s.delivering) :
    LinkStep s a t :=
  ⟨by rw [hlink, AgentLink.forget], .forget id (by rw [hlink]), Or.inl hcalls,
    fun _ hd => Or.inl (hdelivering ▸ hd)⟩

/-- Moving a call to a phase keeps the number of calls. -/
@[simp] lemma length_setPhase (s : LinkState) (k : ℕ) (phase : Phase) :
    (s.setPhase k phase).calls.length = s.calls.length := by
  simp [setPhase]

/-- Every step does to the link what `LinkStep` says. -/
lemma step_link (hstep : s.step a = some t) : LinkStep s a t := by
  cases a with
  | request request =>
    obtain rfl := Option.some.inj hstep
    exact ⟨Nat.le_succ _, .stay rfl, Or.inr ⟨request, rfl, rfl⟩, fun _ hd => Or.inl hd⟩
  | register j =>
    obtain ⟨d, hd, rfl⟩ := Option.map_eq_some_iff.mp hstep
    obtain ⟨hd, hphase⟩ := callAt?_eq_some.mp hd
    cases hreg : s.link.register d.id j with
    | ok link =>
      obtain ⟨pending, hpending, hroom, rfl⟩ := AgentLink.register_eq_ok hreg
      refine ⟨le_rfl, .register j d pending hd hphase hpending hroom rfl ?_,
        Or.inl (length_setPhase s j _), fun _ hd => Or.inl hd⟩
      simp [setPhase, hd]
    | error error => exact linkStep_of_eq le_rfl rfl (length_setPhase s j _) rfl
  | enqueue j =>
    obtain ⟨d, -, rfl⟩ := Option.map_eq_some_iff.mp hstep
    cases hsend : s.link.trySend (.request d.id d.request) with
    | some link =>
      obtain ⟨-, rfl⟩ := AgentLink.trySend_eq_some hsend
      exact linkStep_of_eq le_rfl rfl (length_setPhase s j _) rfl
    | none => exact linkStep_of_eq le_rfl rfl (length_setPhase s j _) rfl
  | forgetUnsent j | forgetTimedOut j =>
    obtain ⟨d, -, rfl⟩ := Option.map_eq_some_iff.mp hstep
    exact linkStep_of_forget rfl (length_setPhase s j _) rfl
  | resolve j =>
    obtain ⟨d, -, hstep⟩ := Option.bind_eq_some_iff.mp hstep
    split at hstep
    · cases hstep
    · obtain rfl := Option.some.inj hstep
      exact linkStep_of_eq le_rfl rfl (length_setPhase s j _) rfl
    · obtain rfl := Option.some.inj hstep
      exact linkStep_of_eq le_rfl rfl (length_setPhase s j _) rfl
  | elapse j | abandon j =>
    obtain ⟨d, -, rfl⟩ := Option.map_eq_some_iff.mp hstep
    exact linkStep_of_eq le_rfl rfl (length_setPhase s j _) rfl
  | complete id response =>
    simp only [step] at hstep
    split at hstep
    · obtain rfl := Option.some.inj hstep
      exact linkStep_of_eq le_rfl rfl rfl rfl
    · next k hwaiter =>
      obtain rfl := Option.some.inj hstep
      refine ⟨le_rfl, .forget id rfl, Or.inl rfl, fun d hd => ?_⟩
      rcases List.mem_append.mp hd with hd | hd
      · exact Or.inl hd
      · obtain rfl := List.mem_singleton.mp hd
        exact Or.inr ⟨id, rfl, hwaiter, rfl, rfl⟩
  | deliver j =>
    obtain ⟨d, -, rfl⟩ := Option.map_eq_some_iff.mp hstep
    exact ⟨le_rfl, .stay rfl, Or.inl (List.length_modify _ _ _),
      fun _ hd => Or.inl (List.mem_of_mem_eraseIdx hd)⟩
  | closeSession session =>
    obtain rfl := Option.some.inj hstep
    exact linkStep_of_eq (Nat.le_succ _) rfl rfl rfl
  | enqueueClose j =>
    obtain ⟨d, -, rfl⟩ := Option.map_eq_some_iff.mp hstep
    cases hsend : s.link.trySend (.request d.1 (.close d.2)) with
    | some link =>
      obtain ⟨-, rfl⟩ := AgentLink.trySend_eq_some hsend
      exact linkStep_of_eq le_rfl rfl rfl rfl
    | none => exact linkStep_of_eq le_rfl rfl rfl rfl
  | send message =>
    obtain rfl := Option.some.inj hstep
    cases hsend : s.link.trySend message with
    | some link =>
      obtain ⟨-, rfl⟩ := AgentLink.trySend_eq_some hsend
      exact linkStep_of_eq le_rfl rfl rfl rfl
    | none => exact linkStep_of_eq le_rfl rfl rfl rfl
  | takeOutgoing =>
    simp only [step] at hstep
    split at hstep
    · cases hstep
    · obtain rfl := Option.some.inj hstep
      exact linkStep_of_eq le_rfl rfl rfl rfl
  | dropReceiver =>
    obtain rfl := Option.some.inj hstep
    exact linkStep_of_eq le_rfl rfl rfl rfl
  | close =>
    obtain rfl := Option.some.inj hstep
    exact ⟨le_rfl, .close rfl, Or.inl (List.length_mapIdx ..), fun _ hd => Or.inl hd⟩

/-- A call of `t` is a call of `s` after `CallStep`, or new: then it has drawn the last id. -/
lemma step_call_inv {c' : Call} (hstep : s.step a = some t) (hc' : t.calls[k]? = some c') :
    (∃ c, s.calls[k]? = some c ∧ CallStep s t k c c') ∨
      (k = s.calls.length ∧ c'.id = s.link.next ∧ t.link.next = s.link.next + 1 ∧
        c'.phase = .drawn ∧ c'.slot = .empty) := by
  cases hc : s.calls[k]? with
  | some c =>
    obtain ⟨d, hd, hcall⟩ := step_call hstep hc
    obtain rfl : d = c' := Option.some.inj (hd.symm.trans hc')
    exact Or.inl ⟨c, rfl, hcall⟩
  | none =>
    have hge : s.calls.length ≤ k := List.getElem?_eq_none_iff.mp hc
    have hlt : k < t.calls.length := (List.getElem?_eq_some_iff.mp hc').1
    rcases (step_link hstep).calls with hlen | ⟨request, hnext, hcalls⟩
    · omega
    · rw [hcalls, List.getElem?_append_right hge] at hc'
      have hk : k = s.calls.length := by
        rw [hcalls, List.length_append, List.length_singleton] at hlt
        omega
      subst hk
      simp only [Nat.sub_self, List.getElem?_cons_zero, Option.some.injEq] at hc'
      subst hc'
      exact Or.inr ⟨rfl, rfl, hnext, rfl, rfl⟩

/-- Who waits after a step waited before it, or has just registered. -/
lemma step_waiter {id : ℕ} (hstep : s.step a = some t) (hwaiter : t.link.waiter id = some k) :
    s.link.waiter id = some k ∨ ∃ c, s.calls[k]? = some c ∧ c.phase = .drawn ∧ c.id = id ∧
      t.calls[k]? = some { c with phase := .registered } := by
  rcases (step_link hstep).pending with hpending | ⟨j, c, pending, hc, hphase, hpending, -, hinsert,
    hc'⟩ | ⟨id', hforget⟩ | hclosed
  · left
    rwa [AgentLink.waiter, ← hpending]
  · rw [AgentLink.waiter, hinsert, Option.bind_some, SortedMap.get?_insert] at hwaiter
    split at hwaiter
    · next hid =>
      obtain rfl := Option.some.inj hwaiter
      exact Or.inr ⟨c, hc, hphase, hid.symm, hc'⟩
    · left
      rwa [AgentLink.waiter, hpending, Option.bind_some]
  · left
    have hwaiter' : (s.link.forget id').waiter id = some k := by
      rwa [AgentLink.waiter, ← hforget]
    rw [AgentLink.waiter_forget] at hwaiter'
    split at hwaiter'
    · cases hwaiter'
    · exact hwaiter'
  · rw [AgentLink.waiter, hclosed] at hwaiter
    cases hwaiter

/-! ## The pending map and the calls -/

/-- The phases in which a call may have an entry in the pending map. -/
def Phase.MayWait : Phase → Prop
  | .drawn | .done _ => False
  | _ => True

/-- The call `k` with this id has registered, and its entry is gone. -/
def Gone (s : LinkState) (k id : ℕ) : Prop :=
  s.link.waiter id = none ∧ ∃ c, s.calls[k]? = some c ∧ c.id = id ∧ c.phase ≠ .drawn

/-- How the pending map, the calls and the deliveries fit together. -/
structure LinkInv (s : LinkState) : Prop where
  id_lt : ∀ (k : ℕ) (c : Call), s.calls[k]? = some c → c.id < s.link.next
  id_inj : ∀ (j k : ℕ) (c d : Call),
    s.calls[j]? = some c → s.calls[k]? = some d → c.id = d.id → j = k
  fresh : ∀ (k : ℕ) (c : Call), s.calls[k]? = some c → c.phase = .drawn → c.slot = .empty
  waiter : ∀ id k, s.link.waiter id = some k →
    ∃ c, s.calls[k]? = some c ∧ c.id = id ∧ c.slot = .empty ∧ Phase.MayWait c.phase
  delivering : ∀ d ∈ s.delivering, ∃ id, Gone s d.1 id
  size_le : ∀ pending, s.link.pending = some pending → pending.size ≤ PENDING_LIMIT

lemma linkInv_new : LinkInv new where
  id_lt k c h := by simp [new] at h
  id_inj j k c d h := by simp [new] at h
  fresh k c h := by simp [new] at h
  waiter id k h := by simp [new] at h
  delivering d hd := by simp [new] at hd
  size_le pending h := by
    obtain rfl := Option.some.inj h
    exact Nat.zero_le _

/-- No step takes a call back to the phase in which it has only drawn its id. -/
lemma CallStep.phase_ne_drawn {c' : Call} (h : CallStep s t k c c') (hc : c.phase ≠ .drawn) :
    c'.phase ≠ .drawn := by
  cases h with
  | stay => exact hc
  | advance phase hphase =>
    intro (hdrawn : phase = .drawn)
    rw [hdrawn] at hphase
    cases hcp : c.phase <;> rw [hcp] at hphase <;> exact hphase
  | fill => exact hc
  | drop => exact hc
  | _ => simp

/-- An entry that is gone does not come back. -/
lemma Gone.step {id : ℕ} (h : Gone s k id) (hinv : LinkInv s) (hstep : s.step a = some t) :
    Gone t k id := by
  obtain ⟨hwaiter, c, hc, hid, hphase⟩ := h
  obtain ⟨c', hc', hcall⟩ := step_call hstep hc
  refine ⟨?_, c', hc', hcall.id_eq.trans hid, hcall.phase_ne_drawn hphase⟩
  refine Option.eq_none_iff_forall_ne_some.mpr fun j hj => ?_
  rcases step_waiter hstep hj with hj | ⟨d, hd, hdrawn, hdid, -⟩
  · rw [hwaiter] at hj
    cases hj
  · -- only a call that has drawn this id and not registered yet could take it
    obtain rfl := hinv.id_inj k j c d hc hd (hid.trans hdid.symm)
    obtain rfl : c = d := Option.some.inj (hc.symm.trans hd)
    exact hphase hdrawn

/-- A call that may wait, with an empty channel, stays so as long as its entry is there. -/
lemma CallStep.mayWait {c' : Call} (h : CallStep s t k c c') (hinv : LinkInv s)
    (hc : s.calls[k]? = some c) (hbefore : s.link.waiter c.id = some k)
    (hafter : t.link.waiter c.id = some k) (hslot : c.slot = .empty)
    (hphase : Phase.MayWait c.phase) : c'.slot = .empty ∧ Phase.MayWait c'.phase := by
  cases h with
  | stay => exact ⟨hslot, hphase⟩
  | advance phase hfollows =>
    refine ⟨hslot, ?_⟩
    change Phase.MayWait phase
    revert hfollows
    cases c.phase <;> cases phase <;> simp [Phase.Follows, Phase.MayWait]
  | accept link hdrawn => simp [hdrawn, Phase.MayWait] at hphase
  | refuse error hdrawn => simp [hdrawn, Phase.MayWait] at hphase
  | forget error _ hwaiter =>
    rw [hwaiter] at hafter
    cases hafter
  | answer response _ hfilled =>
    rw [hslot] at hfilled
    cases hfilled
  | orphan _ hdropped =>
    rw [hslot] at hdropped
    cases hdropped
  | fill response _ hdelivering =>
    obtain ⟨id, hwaiter, d, hd, hid, -⟩ := hinv.delivering _ hdelivering
    obtain rfl : d = c := Option.some.inj (hd.symm.trans hc)
    rw [hid, hwaiter] at hbefore
    cases hbefore
  | drop _ hclosed =>
    rw [AgentLink.waiter, hclosed] at hafter
    cases hafter

/-- The invariant is kept by every step. -/
lemma LinkInv.step (hinv : LinkInv s) (hstep : s.step a = some t) : LinkInv t where
  id_lt k c' hc' := by
    rcases step_call_inv hstep hc' with ⟨c, hc, hcall⟩ | ⟨-, hid, hnext, -⟩
    · rw [hcall.id_eq]
      exact (hinv.id_lt k c hc).trans_le (step_link hstep).next_le
    · omega
  id_inj j k c' d' hc' hd' hid := by
    rcases step_call_inv hstep hc' with ⟨c, hc, hcall⟩ | ⟨hj, hcid, -⟩ <;>
      rcases step_call_inv hstep hd' with ⟨d, hd, hdall⟩ | ⟨hk, hdid, -⟩
    · exact hinv.id_inj j k c d hc hd (by rw [← hcall.id_eq, hid, hdall.id_eq])
    · -- an old call has an older id than the new one
      have hlt := hinv.id_lt j c hc
      rw [← hcall.id_eq] at hlt
      omega
    · have hlt := hinv.id_lt k d hd
      rw [← hdall.id_eq] at hlt
      omega
    · omega
  fresh k c' hc' hdrawn := by
    rcases step_call_inv hstep hc' with ⟨c, hc, hcall⟩ | ⟨-, -, -, -, hslot⟩
    · by_cases hphase : c.phase = .drawn
      · cases hcall with
        | stay => exact hinv.fresh k _ hc hphase
        | advance phase => exact hinv.fresh k c hc hphase
        | accept => cases hdrawn
        | refuse => cases hdrawn
        | forget => cases hdrawn
        | answer => cases hdrawn
        | orphan => cases hdrawn
        | fill response _ hdelivering =>
          obtain ⟨id, -, d, hd, -, hne⟩ := hinv.delivering _ hdelivering
          obtain rfl : d = c := Option.some.inj (hd.symm.trans hc)
          exact absurd hphase hne
        | drop hwaiter =>
          obtain ⟨d, hd, -, -, hwait⟩ := hinv.waiter _ k hwaiter
          obtain rfl : d = c := Option.some.inj (hd.symm.trans hc)
          simp [hphase, Phase.MayWait] at hwait
      · exact absurd hdrawn (hcall.phase_ne_drawn hphase)
    · exact hslot
  waiter id k hwaiter := by
    rcases step_waiter hstep hwaiter with hbefore | ⟨c, hc, hphase, hid, hc'⟩
    · obtain ⟨d, hd, rfl, hslot, hphase⟩ := hinv.waiter id k hbefore
      obtain ⟨c', hc', hcall⟩ := step_call hstep hd
      exact ⟨c', hc', hcall.id_eq, hcall.mayWait hinv hd hbefore hwaiter hslot hphase⟩
    · exact ⟨_, hc', hid, hinv.fresh k c hc hphase, trivial⟩
  delivering d hd := by
    rcases (step_link hstep).delivering d hd with hd | ⟨id, -, hwaiter, hlink, hcalls⟩
    · obtain ⟨id, hgone⟩ := hinv.delivering d hd
      exact ⟨id, hgone.step hinv hstep⟩
    · obtain ⟨c, hc, hid, -, hphase⟩ := hinv.waiter id d.1 hwaiter
      refine ⟨id, by simp [hlink, AgentLink.waiter_forget], c, by rw [hcalls, hc], hid, ?_⟩
      intro hdrawn
      simp [hdrawn, Phase.MayWait] at hphase
  size_le pending' hpending' := by
    rcases (step_link hstep).pending with hpending | ⟨j, c, pending, -, -, hpending, hroom, hinsert,
      -⟩ | ⟨id, hforget⟩ | hclosed
    · exact hinv.size_le pending' (hpending ▸ hpending')
    · obtain rfl := Option.some.inj (hinsert.symm.trans hpending')
      exact (SortedMap.size_insert_le _ _ _).trans hroom
    · rw [hforget, AgentLink.forget] at hpending'
      obtain ⟨pending, hpending, rfl⟩ := Option.map_eq_some_iff.mp hpending'
      exact (pending.size_erase_le id).trans (hinv.size_le pending hpending)
    · rw [hclosed] at hpending'
      cases hpending'

/-- The invariant holds in every reachable state. -/
lemma linkInv_of_run {as : List LinkAction} (hrun : run step new as = some s) : LinkInv s :=
  run_invariant (fun _ _ _ hinv hstep => hinv.step hstep) linkInv_new hrun

/-! ## Which step delivered a response -/

/-- In the run `as` the response was delivered for the call `k` under `id`: a completion with this
id and response was performed while the call was waiting under the id. -/
def CompletedBy (as : List LinkAction) (k id : ℕ) (response : AgentResponse)
    (before : List LinkAction) : Prop :=
  ∃ after u, as = before ++ .complete id response :: after ∧ run step new before = some u ∧
    u.link.waiter id = some k

/-- Some completion delivered the response for the call `k` under `id`. -/
def Completed (as : List LinkAction) (k id : ℕ) (response : AgentResponse) : Prop :=
  ∃ before, CompletedBy as k id response before

/-- What was completed in an initial part of a run was completed in the run. -/
lemma Completed.append {as : List LinkAction} {id : ℕ} {response : AgentResponse}
    (h : Completed as k id response) (bs : List LinkAction) : Completed (as ++ bs) k id response := by
  obtain ⟨before, after, u, rfl, hrun, hwaiter⟩ := h
  exact ⟨before, after ++ bs, u, by simp, hrun, hwaiter⟩

/-- Every response that is under way, that has arrived or that a call returned was delivered by a
completion of the id of the call. -/
structure Delivered (as : List LinkAction) (s : LinkState) : Prop where
  underway : ∀ d ∈ s.delivering, ∃ c, s.calls[d.1]? = some c ∧ Completed as d.1 c.id d.2
  arrived : ∀ (k : ℕ) (c : Call) (response : AgentResponse), s.calls[k]? = some c →
    c.slot = .filled response → Completed as k c.id response
  returned : ∀ (k : ℕ) (c : Call) (response : AgentResponse), s.calls[k]? = some c →
    c.phase = .done (.answered response) → Completed as k c.id response

lemma Delivered.step {as : List LinkAction} (h : Delivered as s)
    (hrun : run LinkState.step new as = some s) (hstep : s.step a = some t) :
    Delivered (as ++ [a]) t where
  underway d hd := by
    rcases (step_link hstep).delivering d hd with hd | ⟨id, ha, hwaiter, -, hcalls⟩
    · obtain ⟨c, hc, hcompleted⟩ := h.underway d hd
      obtain ⟨c', hc', hcall⟩ := step_call hstep hc
      exact ⟨c', hc', by rw [hcall.id_eq]; exact hcompleted.append [a]⟩
    · obtain ⟨c, hc, rfl, -⟩ := (linkInv_of_run hrun).waiter id d.1 hwaiter
      refine ⟨c, by rw [hcalls, hc], as, [], s, ?_, hrun, hwaiter⟩
      rw [ha]
  arrived k c' response hc' hfilled := by
    rcases step_call_inv hstep hc' with ⟨c, hc, hcall⟩ | ⟨-, -, -, -, hslot⟩
    · rw [hcall.id_eq]
      refine Completed.append ?_ [a]
      cases hcall with
      | fill response' _ hdelivering =>
        obtain rfl : response' = response := Slot.filled.inj hfilled
        obtain ⟨d, hd, hcompleted⟩ := h.underway _ hdelivering
        obtain rfl : d = c := Option.some.inj (hd.symm.trans hc)
        exact hcompleted
      | drop => cases hfilled
      | stay => exact h.arrived k _ response hc hfilled
      | _ => exact h.arrived k c response hc hfilled
    · rw [hslot] at hfilled
      cases hfilled
  returned k c' response hc' hdone := by
    rcases step_call_inv hstep hc' with ⟨c, hc, hcall⟩ | ⟨-, -, -, hphase, -⟩
    · rw [hcall.id_eq]
      refine Completed.append ?_ [a]
      cases hcall with
      | stay => exact h.returned k _ response hc hdone
      | advance phase hfollows =>
        have hphase : phase = .done (.answered response) := hdone
        rw [hphase] at hfollows
        cases hcp : c.phase <;> rw [hcp] at hfollows <;> exact hfollows.elim
      | accept | refuse | forget | orphan => simp at hdone
      | answer response' _ hslot =>
        obtain rfl : response' = response := by simpa using hdone
        exact h.arrived k c response' hc hslot
      | fill => exact h.returned k c response hc hdone
      | drop => exact h.returned k c response hc hdone
    · rw [hphase] at hdone
      cases hdone

/-- Every run has delivered what `Delivered` says. -/
lemma delivered_of_run {as : List LinkAction} (hrun : run step new as = some s) :
    Delivered as s := by
  refine run_induction (P := Delivered) ?_ (fun as a s t hrun h hstep => h.step hrun hstep) hrun
  exact ⟨fun d hd => by simp [new] at hd, fun k c r hc => by simp [new] at hc,
    fun k c r hc => by simp [new] at hc⟩

/-- After a completion of a pending id the entry is gone for the rest of the run. -/
lemma gone_of_completed {before after : List LinkAction} {u : LinkState} {id : ℕ}
    {response : AgentResponse} (hbefore : run step new before = some u)
    (hwaiter : u.link.waiter id = some k)
    (hafter : run step u (.complete id response :: after) = some s) : Gone s k id := by
  obtain ⟨v, hv, hafter⟩ := run_cons_eq_some.mp hafter
  have hinv := linkInv_of_run hbefore
  have hgone : Gone v k id := by
    obtain ⟨c, hc, hid, -, hphase⟩ := hinv.waiter id k hwaiter
    simp only [step, hwaiter, Option.some.injEq] at hv
    subst hv
    refine ⟨by simp [AgentLink.waiter_forget], c, hc, hid, ?_⟩
    intro hdrawn
    simp [hdrawn, Phase.MayWait] at hphase
  have hkeep : LinkInv s ∧ Gone s k id :=
    run_invariant (I := fun s => LinkInv s ∧ Gone s k id)
      (fun _ _ _ h hstep => ⟨h.1.step hstep, h.2.step h.1 hstep⟩) ⟨hinv.step hv, hgone⟩ hafter
  exact hkeep.2

/-- Of two completions of one id the later one finds no waiter. -/
private lemma not_completed_later {as before mid : List LinkAction} {j id : ℕ}
    {response response' : AgentResponse} (h : CompletedBy as k id response before) :
    ¬ CompletedBy as j id response' (before ++ .complete id response :: mid) := by
  rintro ⟨after', u', -, hrun', hwaiter'⟩
  obtain ⟨after, u, -, hrun, hwaiter⟩ := h
  obtain ⟨v, hv, hmid⟩ := run_append_eq_some.mp hrun'
  obtain rfl : v = u := Option.some.inj (hv.symm.trans hrun)
  rw [(gone_of_completed hrun hwaiter hmid).1] at hwaiter'
  cases hwaiter'

/-- At most one completion of an id finds a waiter. -/
lemma completedBy_unique {as before before' : List LinkAction} {j id : ℕ}
    {response response' : AgentResponse} (h : CompletedBy as k id response before)
    (h' : CompletedBy as j id response' before') : before = before' := by
  have hcopy := h
  have hcopy' := h'
  obtain ⟨after, u, has, -⟩ := hcopy
  obtain ⟨after', u', has', -⟩ := hcopy'
  rcases List.append_eq_append_iff.mp (has.symm.trans has') with ⟨mid, hmid, hrest⟩ |
    ⟨mid, hmid, hrest⟩
  · cases mid with
    | nil => simpa using hmid.symm
    | cons b mid =>
      obtain ⟨rfl, -⟩ := List.cons.inj hrest
      exact absurd (hmid ▸ h') (not_completed_later h)
  · cases mid with
    | nil => simpa using hmid
    | cons b mid =>
      obtain ⟨rfl, -⟩ := List.cons.inj hrest
      exact absurd (hmid ▸ h) (not_completed_later h')

/-! ## Outcomes -/

/-- A call that has an outcome keeps it. -/
lemma outcome_stable {as : List LinkAction} {outcome : Outcome}
    (hdone : ∃ c, s.calls[k]? = some c ∧ c.phase = .done outcome) (hrun : run step s as = some t) :
    ∃ c, t.calls[k]? = some c ∧ c.phase = .done outcome := by
  refine run_invariant (I := fun s => ∃ c, s.calls[k]? = some c ∧ c.phase = .done outcome)
    (fun s a t h hstep => ?_) hdone hrun
  obtain ⟨c, hc, hphase⟩ := h
  obtain ⟨c', hc', hcall⟩ := step_call hstep hc
  refine ⟨c', hc', ?_⟩
  cases hcall with
  | stay | fill | drop => exact hphase
  | advance phase hfollows => simp [hphase, Phase.Follows] at hfollows
  | accept link hdrawn => simp [hphase] at hdrawn
  | refuse error hdrawn => simp [hphase] at hdrawn
  | forget error hbefore => simp [hphase] at hbefore
  | answer response hwaiting => simp [hphase] at hwaiting
  | orphan hwaiting => simp [hphase] at hwaiting

/-- A link that has closed stays closed. -/
lemma closed_step (hclosed : s.link.pending = none) (hstep : s.step a = some t) :
    t.link.pending = none := by
  rcases (step_link hstep).pending with hpending | ⟨j, c, pending, -, -, hpending, -⟩ |
    ⟨id, hforget⟩ | hclosed'
  · rw [hpending, hclosed]
  · rw [hclosed] at hpending
    cases hpending
  · rw [hforget, AgentLink.forget, hclosed]
    rfl
  · exact hclosed'

/-- A call whose sender was dropped is never answered. -/
lemma orphan_stable {as : List LinkAction}
    (h : ∃ c, s.calls[k]? = some c ∧ c.slot = .dropped ∧ ∀ r, c.phase ≠ .done (.answered r))
    (hrun : run step s as = some t) :
    ∃ c, t.calls[k]? = some c ∧ c.slot = .dropped ∧ ∀ r, c.phase ≠ .done (.answered r) := by
  refine run_invariant (I := fun s => ∃ c, s.calls[k]? = some c ∧ c.slot = .dropped ∧
    ∀ r, c.phase ≠ .done (.answered r)) (fun s a t h hstep => ?_) h hrun
  obtain ⟨c, hc, hslot, hphase⟩ := h
  obtain ⟨c', hc', hcall⟩ := step_call hstep hc
  refine ⟨c', hc', ?_⟩
  cases hcall with
  | stay => exact ⟨hslot, hphase⟩
  | advance phase hfollows =>
    refine ⟨hslot, fun r (hdone : phase = _) => ?_⟩
    rw [hdone] at hfollows
    cases hcp : c.phase <;> rw [hcp] at hfollows <;> exact hfollows
  | accept | refuse | forget | orphan => exact ⟨hslot, by simp⟩
  | answer response _ hfilled =>
    rw [hslot] at hfilled
    cases hfilled
  | fill response hempty =>
    rw [hslot] at hempty
    cases hempty
  | drop => exact ⟨rfl, hphase⟩

/-- What became of the call `k` on a closed link that it had not registered with: it has drawn its
id at most, or it was refused. -/
def Refused (s : LinkState) (k : ℕ) : Prop :=
  s.link.pending = none ∧ ∀ c, s.calls[k]? = some c →
    c.phase = .drawn ∨ c.phase = .done (.failed "agent link closed")

lemma Refused.run {as : List LinkAction} (h : Refused s k) (hrun : run step s as = some t) :
    Refused t k := by
  refine run_invariant (I := fun s => Refused s k) (fun s a t h hstep => ?_) h hrun
  obtain ⟨hclosed, hcalls⟩ := h
  refine ⟨closed_step hclosed hstep, fun c' hc' => ?_⟩
  rcases step_call_inv hstep hc' with ⟨c, hc, hcall⟩ | ⟨-, -, -, hphase, -⟩
  · have hphase := hcalls c hc
    cases hcall with
    | stay | fill | drop => exact hphase
    | advance phase hfollows =>
      rcases hphase with hphase | hphase <;> simp [hphase, Phase.Follows] at hfollows
    | accept link _ hlink => simp [AgentLink.register, hclosed] at hlink
    | refuse error _ herror =>
      simp only [AgentLink.register, hclosed, Except.error.injEq] at herror
      exact Or.inr (by rw [herror])
    | forget error hbefore => rcases hphase with hphase | hphase <;> simp [hphase] at hbefore
    | answer response hwaiting => rcases hphase with hphase | hphase <;> simp [hphase] at hwaiting
    | orphan => exact Or.inr rfl
  · exact Or.inl hphase

/-- Registering with a closed link fails. -/
lemma register_of_closed (hclosed : s.link.pending = none) (hc : s.callAt? k .drawn = some c) :
    s.step (.register k) = some (s.setPhase k (.done (.failed "agent link closed"))) := by
  simp [step, hc, AgentLink.register, hclosed]

/-- Closing the link drops the sender of every waiting call. -/
lemma orphan_of_close (hinv : LinkInv s) (hwaiter : s.link.waiter c.id = some k)
    (hc : s.calls[k]? = some c) (hstep : s.step .close = some t) :
    ∃ c, t.calls[k]? = some c ∧ c.slot = .dropped ∧ ∀ r, c.phase ≠ .done (.answered r) := by
  obtain ⟨d, hd, -, -, hphase⟩ := hinv.waiter _ k hwaiter
  obtain rfl : d = c := Option.some.inj (hd.symm.trans hc)
  obtain rfl := Option.some.inj hstep
  refine ⟨{ d with slot := .dropped }, by simp [dropSenders, hc, hwaiter], rfl, fun r hdone => ?_⟩
  rw [show d.phase = _ from hdone] at hphase
  exact hphase

/-- A completion of an id that nothing waits under changes nothing. -/
lemma complete_of_no_waiter {id : ℕ} (hwaiter : s.link.waiter id = none)
    (response : AgentResponse) : s.step (.complete id response) = some s := by
  simp only [step, hwaiter]

/-- A call is not registered: it has drawn its id at most, or is still to be made. -/
def Unregistered (s : LinkState) (k : ℕ) : Prop :=
  ∀ c : Call, s.calls[k]? = some c → c.phase = .drawn

/-- What the link guarantees after the run `as` that ends in the state `s`. -/
structure Matching (as : List LinkAction) (s : LinkState) : Prop where
  /-- A request resolves at most once: an outcome reached earlier in the run is the outcome. -/
  resolves_once : ∀ (before after : List LinkAction) (u : LinkState) (k : ℕ) (c : Call)
    (outcome : Outcome), as = before ++ after → run step new before = some u → u.calls[k]? = some c → c.phase = .done outcome →
    ∃ c' : Call, s.calls[k]? = some c' ∧ c'.phase = .done outcome
  /-- A request that resolved with a response got it from the only completion with its id that was
  performed while it was pending and the link open; this is the first one, there is no other. -/
  answered_by_completion : ∀ (k : ℕ) (c : Call) (response : AgentResponse),
    s.calls[k]? = some c → c.phase = .done (.answered response) →
    ∃ before, CompletedBy as k c.id response before ∧
      ∀ before' j response', CompletedBy as j c.id response' before' → before' = before
  /-- A completion of an id that is not pending (forgotten, unknown, completed before, of a session
  close, or on a closed link) changes nothing at all. -/
  unmatched_complete : ∀ id response, s.link.waiter id = none →
    s.step (.complete id response) = some s
  pending_size_le : ∀ pending, s.link.pending = some pending → pending.size ≤ PENDING_LIMIT
  pending_ids : ∀ pending, s.link.pending = some pending →
    pending.keys.Nodup ∧ ∀ id ∈ pending.keys, id < s.link.next
  /-- A request that is pending when the link closes never resolves with a response. -/
  closed_fails_pending : ∀ (before after : List LinkAction) (u : LinkState) (k : ℕ) (c : Call),
    as = before ++ .close :: after → run step new before = some u → u.calls[k]? = some c →
    u.link.waiter c.id = some k → ∀ (c' : Call) (response : AgentResponse), s.calls[k]? = some c' → c'.phase ≠ .done (.answered response)
  /-- A request that registers after the link has closed is refused. -/
  closed_refuses : ∀ (before after : List LinkAction) (u : LinkState) (k : ℕ) (c : Call),
    as = before ++ .close :: after → run step new before = some u → Unregistered u k → s.calls[k]? = some c →
    c.phase = .done (.failed "agent link closed") ∨ c.phase = .drawn ∧
      s.step (.register k) = some (s.setPhase k (.done (.failed "agent link closed")))

/-- Responses match requests: after every interleaving of the tasks of a link, every guarantee of
`Matching` holds. -/
theorem responses_match_requests {as : List LinkAction} {s : LinkState}
    (hrun : run step new as = some s) : Matching as s where
  resolves_once before after u k c outcome has hbefore hc hdone := by
    rw [has] at hrun
    obtain ⟨v, hv, hafter⟩ := run_append_eq_some.mp hrun
    obtain rfl : v = u := Option.some.inj (hv.symm.trans hbefore)
    exact outcome_stable ⟨c, hc, hdone⟩ hafter
  answered_by_completion k c response hc hdone := by
    obtain ⟨before, hcompleted⟩ := (delivered_of_run hrun).returned k c response hc hdone
    exact ⟨before, hcompleted, fun before' j response' h => completedBy_unique h hcompleted⟩
  unmatched_complete id response hwaiter := complete_of_no_waiter hwaiter response
  pending_size_le := (linkInv_of_run hrun).size_le
  pending_ids pending hpending := by
    refine ⟨pending.nodup_keys, fun id hid => ?_⟩
    obtain ⟨k, hk⟩ := Option.isSome_iff_exists.mp (SortedMap.mem_keys.mp hid)
    have hwaiter : s.link.waiter id = some k := by
      rw [AgentLink.waiter, hpending, Option.bind_some, hk]
    obtain ⟨c, hc, rfl, -⟩ := (linkInv_of_run hrun).waiter id k hwaiter
    exact (linkInv_of_run hrun).id_lt k c hc
  closed_fails_pending before after u k c has hbefore hc hwaiter c' response hc' := by
    rw [has] at hrun
    obtain ⟨v, hv, hafter⟩ := run_append_eq_some.mp hrun
    obtain rfl : v = u := Option.some.inj (hv.symm.trans hbefore)
    obtain ⟨w, hw, hafter⟩ := run_cons_eq_some.mp hafter
    have horphan := orphan_of_close (linkInv_of_run hbefore) hwaiter hc hw
    obtain ⟨d, hd, -, hphase⟩ := orphan_stable horphan hafter
    obtain rfl : d = c' := Option.some.inj (hd.symm.trans hc')
    exact hphase response
  closed_refuses before after u k c has hbefore hunregistered hc := by
    rw [has] at hrun
    obtain ⟨v, hv, hafter⟩ := run_append_eq_some.mp hrun
    obtain rfl : v = u := Option.some.inj (hv.symm.trans hbefore)
    obtain ⟨w, hw, hafter⟩ := run_cons_eq_some.mp hafter
    have hrefused : Refused w k := by
      obtain rfl := Option.some.inj hw
      refine ⟨rfl, fun d hd => Or.inl ?_⟩
      simp only [dropSenders, List.getElem?_mapIdx, Option.map_eq_some_iff] at hd
      obtain ⟨e, he, rfl⟩ := hd
      split <;> exact hunregistered e he
    obtain ⟨hclosed, hcalls⟩ := hrefused.run hafter
    rcases hcalls c hc with hphase | hphase
    · exact Or.inr ⟨hphase, register_of_closed hclosed (callAt?_eq_some.mpr ⟨hc, hphase⟩)⟩
    · exact Or.inl hphase

/-- A request that is answered after a completion of another id: the guarantees hold of this run. -/
theorem responses_match_requests_of_answer :
    ∃ s, run step new [.request .processes, .register 0, .enqueue 0, .takeOutgoing,
        .complete 7 (.error "unrelated"), .complete 0 (.ok .closed), .deliver 0, .resolve 0,
        .close] = some s ∧
      (s.callAt? 0 (.done (.answered (.ok .closed)))).isSome ∧
      Matching [.request .processes, .register 0, .enqueue 0, .takeOutgoing,
        .complete 7 (.error "unrelated"), .complete 0 (.ok .closed), .deliver 0, .resolve 0,
        .close] s :=
  ⟨_, rfl, by decide, responses_match_requests rfl⟩

end LinkState

end Procinsh
