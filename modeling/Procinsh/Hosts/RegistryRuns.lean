import Procinsh.Foundation.Transition
import Procinsh.Hosts.Registry

/-!
# The host registry under concurrent agents

Any number of admissions, disconnects, prunes and reads interleave.  Everything that a call does
from one locking of the registry to the next is one step, so an admission is three steps: the checks
and the opening prune, the draw of the link id, and the insertion.  The closing of a replaced link
and the change notification that follow the insertion belong to its step.
-/

namespace Procinsh

/-- Where a call of `admit` stands. -/
inductive AdmissionStage
  /-- The name has been checked and the registry pruned. -/
  | entered
  | drawn (id : ℕ)
  | done (result : Except AdmissionError ℕ)
  deriving DecidableEq

/-- A call of `admit`. -/
structure Admission where
  info : HostInfo
  handle : ℕ
  stage : AdmissionStage
  deriving DecidableEq

/-- A registry with the calls of `admit` and the handles of the links it has closed. -/
structure RegistryState where
  registry : HostRegistry
  closed : List ℕ
  admissions : List Admission

/-- One step of one task. -/
inductive RegistryAction
  | enter (info : HostInfo) (handle now : ℕ)
  | drawLink (admission : ℕ)
  | insertHost (admission now : ℕ)
  | disconnected (name : String) (id now : ℕ)
  | prune (now : ℕ)
  /-- `summaries` prunes before it reads. -/
  | summaries (now : ℕ)
  | isCurrent (name : String) (id : ℕ)
  | remote (name : String)
  | online
  deriving DecidableEq

namespace RegistryState

/-- A new registry. -/
def new (localHost : HostInfo) (started : ℕ) : RegistryState := ⟨.new localHost started, [], []⟩

/-- Moves an admission to a stage. -/
def setStage (s : RegistryState) (k : ℕ) (stage : AdmissionStage) : List Admission :=
  s.admissions.modify k fun admission => { admission with stage := stage }

/-- The effect of an action, or `none` when the task that performs it is not at that point. -/
def step (s : RegistryState) : RegistryAction → Option RegistryState
  | .enter info handle now =>
    match s.registry.checkName info with
    | some error =>
      some { s with admissions := s.admissions ++ [⟨info, handle, .done (.error error)⟩] }
    | none => some { s with
        registry := s.registry.prune now
        admissions := s.admissions ++ [⟨info, handle, .entered⟩] }
  | .drawLink k =>
    match s.admissions[k]? with
    | some ⟨_, _, .entered⟩ => some { s with
        registry := s.registry.drawLink.1
        admissions := s.setStage k (.drawn s.registry.drawLink.2) }
    | _ => none
  | .insertHost k now =>
    match s.admissions[k]? with
    | some ⟨info, handle, .drawn id⟩ =>
      match s.registry.insertHost info id handle now with
      | .error error => some { s with admissions := s.setStage k (.done (.error error)) }
      | .ok (registry, closed) => some {
          registry := registry
          closed := s.closed ++ closed.toList
          admissions := s.setStage k (.done (.ok id)) }
    | _ => none
  | .disconnected name id now => some { s with
      registry := (s.registry.disconnected name id now).1
      closed := s.closed ++ (s.registry.disconnected name id now).2.toList }
  | .prune now | .summaries now => some { s with registry := s.registry.prune now }
  | .isCurrent _ _ | .remote _ | .online => some s

/-- The call of `admit` at a position stands in a stage. -/
def Stands (s : RegistryState) (k : ℕ) (info : HostInfo) (stage : AdmissionStage) : Prop :=
  ∃ handle, s.admissions[k]? = some ⟨info, handle, stage⟩

/-- A stage in which the call has not returned. -/
def InProgress : AdmissionStage → Prop
  | .done _ => False
  | _ => True

/-! ## What one step does -/

/-- What a step can do to the registry, to the closed links and to the calls of `admit`. -/
inductive RegistryStep (s : RegistryState) (a : RegistryAction) (t : RegistryState) : Prop
  /-- A read, or a refusal. -/
  | keep (hregistry : t.registry = s.registry) (hclosed : t.closed = s.closed)
    (hstands : ∀ k info stage, InProgress stage → t.Stands k info stage → s.Stands k info stage)
  | prune (now : ℕ) (hregistry : t.registry = s.registry.prune now) (hclosed : t.closed = s.closed)
    (hstands : ∀ k info stage, InProgress stage → t.Stands k info stage →
      s.Stands k info stage ∨ s.registry.checkName info = none ∧ stage = .entered)
  | draw (k : ℕ) (info : HostInfo) (hstands : s.Stands k info .entered)
    (hregistry : t.registry = s.registry.drawLink.1) (hclosed : t.closed = s.closed)
    (hstands' : ∀ j info' stage, InProgress stage → t.Stands j info' stage →
      s.Stands j info' stage ∨ j = k ∧ info' = info ∧ stage = .drawn s.registry.drawLink.2)
  | insert (k : ℕ) (info : HostInfo) (id handle now : ℕ) (closed : Option ℕ)
    (hstands : s.Stands k info (.drawn id))
    (hinsert : s.registry.insertHost info id handle now = .ok (t.registry, closed))
    (hclosed : t.closed = s.closed ++ closed.toList)
    (hstands' : ∀ j info' stage, InProgress stage → t.Stands j info' stage →
      s.Stands j info' stage ∧ j ≠ k)
  | disconnect (name : String) (id now : ℕ) (hcurrent : s.registry.isCurrent name id = true)
    (hregistry : t.registry = (s.registry.disconnected name id now).1)
    (hclosed : t.closed = s.closed ++ (s.registry.disconnected name id now).2.toList)
    (hadmissions : t.admissions = s.admissions)

variable {s t : RegistryState} {a : RegistryAction}

/-- A call that stands in a stage after another call moved on stood there before. -/
private lemma stands_of_setStage {k j : ℕ} {info : HostInfo} {stage stage' : AdmissionStage}
    {admissions : List Admission} {handle : ℕ} (hadmissions : admissions = s.setStage k stage')
    (h : admissions[j]? = some ⟨info, handle, stage⟩) :
    j ≠ k ∧ s.admissions[j]? = some ⟨info, handle, stage⟩ ∨
      j = k ∧ stage = stage' ∧ ∃ old, s.admissions[j]? = some ⟨info, handle, old⟩ := by
  rw [hadmissions, setStage, List.getElem?_modify] at h
  by_cases hjk : k = j
  · right
    obtain ⟨⟨info', handle', old⟩, hold, heq⟩ := Option.map_eq_some_iff.mp h
    simp only [hjk, if_true, Admission.mk.injEq] at heq
    obtain ⟨rfl, rfl, rfl⟩ := heq
    exact ⟨hjk.symm, rfl, old, hold⟩
  · left
    obtain ⟨admission, hadmission, heq⟩ := Option.map_eq_some_iff.mp h
    simp only [hjk, if_false] at heq
    subst heq
    exact ⟨Ne.symm hjk, hadmission⟩

/-- A call that stands somewhere after a new call was appended stood there before, or is new. -/
private lemma stands_of_append {j : ℕ} {admission admission' : Admission}
    (h : (s.admissions ++ [admission])[j]? = some admission') :
    s.admissions[j]? = some admission' ∨ admission' = admission := by
  rcases Nat.lt_trichotomy j s.admissions.length with hlt | heq | hgt
  · rw [List.getElem?_append_left hlt] at h
    exact Or.inl h
  · rw [List.getElem?_append_right heq.ge, heq, Nat.sub_self] at h
    exact Or.inr (Option.some.inj h).symm
  · rw [List.getElem?_eq_none (by simp; omega)] at h
    cases h

/-- Every step does what `RegistryStep` says. -/
lemma registry_step (hstep : s.step a = some t) : RegistryStep s a t := by
  cases a with
  | enter info handle now =>
    simp only [step] at hstep
    split at hstep
    · obtain rfl := Option.some.inj hstep
      refine .keep rfl rfl fun k info' stage hprogress ⟨handle', hk⟩ => ?_
      rcases stands_of_append hk with hk | heq
      · exact ⟨handle', hk⟩
      · rw [(Admission.mk.inj heq).2.2] at hprogress
        exact hprogress.elim
    · next hcheck =>
      obtain rfl := Option.some.inj hstep
      refine .prune now rfl rfl fun k info' stage hprogress ⟨handle', hk⟩ => ?_
      rcases stands_of_append hk with hk | heq
      · exact Or.inl ⟨handle', hk⟩
      · obtain ⟨rfl, -, rfl⟩ := Admission.mk.inj heq
        exact Or.inr ⟨hcheck, rfl⟩
  | drawLink k =>
    simp only [step] at hstep
    split at hstep
    · next info handle hk =>
      obtain rfl := Option.some.inj hstep
      refine .draw k info ⟨handle, hk⟩ rfl rfl fun j info' stage hprogress ⟨handle', hj⟩ => ?_
      rcases stands_of_setStage rfl hj with ⟨-, hj⟩ | ⟨rfl, rfl, old, hj⟩
      · exact Or.inl ⟨handle', hj⟩
      · rw [hk, Option.some.injEq, Admission.mk.injEq] at hj
        exact Or.inr ⟨rfl, hj.1.symm, rfl⟩
    · cases hstep
  | insertHost k now =>
    simp only [step] at hstep
    split at hstep
    · next info handle id hk =>
      split at hstep
      · obtain rfl := Option.some.inj hstep
        refine .keep rfl rfl fun j info' stage hprogress ⟨handle', hj⟩ => ?_
        rcases stands_of_setStage rfl hj with ⟨-, hj⟩ | ⟨-, rfl, -⟩
        · exact ⟨handle', hj⟩
        · exact hprogress.elim
      · next registry closed hinsert =>
        obtain rfl := Option.some.inj hstep
        refine .insert k info id handle now closed ⟨handle, hk⟩ hinsert rfl
          fun j info' stage hprogress ⟨handle', hj⟩ => ?_
        rcases stands_of_setStage rfl hj with ⟨hne, hj⟩ | ⟨-, rfl, -⟩
        · exact ⟨⟨handle', hj⟩, hne⟩
        · exact hprogress.elim
    · cases hstep
  | disconnected name id now =>
    obtain rfl := Option.some.inj hstep
    cases hcurrent : s.registry.isCurrent name id with
    | true => exact .disconnect name id now hcurrent rfl rfl rfl
    | false =>
      have hsame := HostRegistry.disconnected_of_not_current now hcurrent
      exact .keep (by simp [hsame]) (by simp [hsame]) fun k info stage _ h => h
  | prune now | summaries now =>
    obtain rfl := Option.some.inj hstep
    exact .prune now rfl rfl fun k info stage _ h => Or.inl h
  | isCurrent | remote | online =>
    obtain rfl := Option.some.inj hstep
    exact .keep rfl rfl fun k info stage _ h => h

/-! ## The invariant -/

/-- What every reachable state of the registry has in common. -/
structure RegistryInv (s : RegistryState) : Prop where
  online_iff : ∀ name host, s.registry.hosts.get? name = some host →
    host.status.isOnline = host.link.isSome
  size_le : s.registry.hosts.size ≤ HOST_LIMIT
  names : ∀ name host, s.registry.hosts.get? name = some host →
    validHostName name = true ∧ name ≠ s.registry.localHost.name
  link_le : ∀ name id handle, s.registry.linkOf name = some (id, handle) → id ≤ s.registry.links
  link_inj : ∀ name name' id handle handle', s.registry.linkOf name = some (id, handle) →
    s.registry.linkOf name' = some (id, handle') → name = name'
  /-- A call of `admit` that is under way has passed the name checks. -/
  checked : ∀ k info stage, InProgress stage → s.Stands k info stage →
    s.registry.checkName info = none
  /-- A drawn link id is not in use and was drawn by one call only. -/
  drawn_le : ∀ k info id, s.Stands k info (.drawn id) → id ≤ s.registry.links
  drawn_unused : ∀ k info id, s.Stands k info (.drawn id) →
    ∀ name handle, s.registry.linkOf name ≠ some (id, handle)
  drawn_inj : ∀ j k info info' id, s.Stands j info (.drawn id) → s.Stands k info' (.drawn id) →
    j = k

lemma registryInv_new (localHost : HostInfo) (started : ℕ) :
    RegistryInv (new localHost started) := by
  have hget : ∀ name, (new localHost started).registry.hosts.get? name = none := fun name => rfl
  have hlink : ∀ name, (new localHost started).registry.linkOf name = none := fun name => rfl
  have hstands : ∀ k info stage, ¬ (new localHost started).Stands k info stage := by
    rintro k info stage ⟨handle, h⟩
    simp [new] at h
  refine ⟨fun name host h => ?_, Nat.zero_le _, fun name host h => ?_, fun name id handle h => ?_,
    fun name _ id handle _ h => ?_, fun k info stage _ h => (hstands _ _ _ h).elim,
    fun k info id h => (hstands _ _ _ h).elim, fun k info id h => (hstands _ _ _ h).elim,
    fun j k info info' id h => (hstands _ _ _ h).elim⟩
  · rw [hget] at h
    cases h
  · rw [hget] at h
    cases h
  · rw [hlink] at h
    cases h
  · rw [hlink] at h
    cases h

/-- What the checks of `admit` establish. -/
lemma checkName_eq_none {r : HostRegistry} {info : HostInfo} :
    r.checkName info = none ↔ validHostName info.name = true ∧ info.name ≠ r.localHost.name := by
  unfold HostRegistry.checkName
  by_cases hvalid : validHostName info.name = true <;> by_cases hown : info.name = r.localHost.name <;>
    simp_all

/-- Pruning removes no connected host. -/
lemma linkOf_prune {r : HostRegistry} (now : ℕ) (name : String)
    (honline : ∀ host, r.hosts.get? name = some host → host.status.isOnline = host.link.isSome) :
    (r.prune now).linkOf name = r.linkOf name := by
  rw [HostRegistry.linkOf, HostRegistry.linkOf, HostRegistry.get?_prune]
  cases hget : r.hosts.get? name with
  | none => rfl
  | some host =>
    cases hretained : HostRegistry.retained now host with
    | true => rw [Option.filter_some_pos hretained]
    | false =>
      have hoffline : host.status.isOnline = false := by
        unfold HostRegistry.retained at hretained
        cases hstatus : host.status with
        | offline since => rfl
        | online since => simp [hstatus] at hretained
      have hlink : host.link = none := by
        have h := honline host hget
        rw [hoffline] at h
        simpa using h.symm
      simp [hretained, hlink]

/-- The links after an entry is replaced. -/
lemma linkOf_insert {r r' : HostRegistry} {name : String} {host : Remote}
    (h : r'.hosts = r.hosts.insert name host) (name' : String) :
    r'.linkOf name' = if name' = name then host.link else r.linkOf name' := by
  rw [HostRegistry.linkOf, h, SortedMap.get?_insert]
  split <;> rfl

/-- The entries after pruning were there before. -/
lemma get?_of_prune {r : HostRegistry} {now : ℕ} {name : String} {host : Remote}
    (h : (r.prune now).hosts.get? name = some host) : r.hosts.get? name = some host := by
  rw [HostRegistry.get?_prune, Option.filter_eq_some_iff] at h
  exact h.1

/-- The invariant is kept when the registry and the calls under way stay. -/
private lemma RegistryInv.keep (h : RegistryInv s) (hregistry : t.registry = s.registry)
    (hstands : ∀ k info stage, InProgress stage → t.Stands k info stage → s.Stands k info stage) :
    RegistryInv t where
  online_iff := by rw [hregistry]; exact h.online_iff
  size_le := by rw [hregistry]; exact h.size_le
  names := by rw [hregistry]; exact h.names
  link_le := by rw [hregistry]; exact h.link_le
  link_inj := by rw [hregistry]; exact h.link_inj
  checked k info stage hprogress hk := by
    rw [hregistry]
    exact h.checked k info stage hprogress (hstands k info stage hprogress hk)
  drawn_le k info id hk := by
    rw [hregistry]
    exact h.drawn_le k info id (hstands k info _ trivial hk)
  drawn_unused k info id hk := by
    rw [hregistry]
    exact h.drawn_unused k info id (hstands k info _ trivial hk)
  drawn_inj j k info info' id hj hk :=
    h.drawn_inj j k info info' id (hstands j info _ trivial hj) (hstands k info' _ trivial hk)

/-- The invariant is kept by pruning. -/
private lemma RegistryInv.prune (h : RegistryInv s) {now : ℕ}
    (hregistry : t.registry = s.registry.prune now)
    (hstands : ∀ k info stage, InProgress stage → t.Stands k info stage →
      s.Stands k info stage ∨ s.registry.checkName info = none ∧ stage = .entered) :
    RegistryInv t := by
  have hlocal : t.registry.localHost = s.registry.localHost := by
    rw [hregistry]
    rcases s.registry.prune_cases now with hsame | ⟨-, -, -, hlocal⟩
    · rw [hsame]
    · exact hlocal
  have hlinks : t.registry.links = s.registry.links := by
    rw [hregistry]
    rcases s.registry.prune_cases now with hsame | ⟨-, -, hlinks, -⟩
    · rw [hsame]
    · exact hlinks
  have hlinkOf : ∀ name, t.registry.linkOf name = s.registry.linkOf name := fun name => by
    rw [hregistry]
    exact linkOf_prune now name (h.online_iff name)
  have hget : ∀ name host, t.registry.hosts.get? name = some host →
      s.registry.hosts.get? name = some host := fun name host hhost =>
    get?_of_prune (hregistry ▸ hhost)
  have hdrawn : ∀ k info id, t.Stands k info (.drawn id) → s.Stands k info (.drawn id) := by
    intro k info id hk
    rcases hstands k info (.drawn id) trivial hk with hk | ⟨-, hstage⟩
    · exact hk
    · cases hstage
  refine ⟨fun name host hhost => h.online_iff name host (hget name host hhost), ?_, ?_, ?_, ?_, ?_, ?_, ?_, ?_⟩
  · rw [hregistry]
    rcases s.registry.prune_cases now with hsame | ⟨hsize, -⟩
    · rw [hsame]
      exact h.size_le
    · exact hsize.le.trans h.size_le
  · intro name host hhost
    rw [hlocal]
    exact h.names name host (hget name host hhost)
  · intro name id handle hlink
    rw [hlinks]
    exact h.link_le name id handle (hlinkOf name ▸ hlink)
  · intro name name' id handle handle' hlink hlink'
    rw [hlinkOf] at hlink hlink'
    exact h.link_inj name name' id handle handle' hlink hlink'
  · intro k info stage hprogress hk
    rw [checkName_eq_none, hlocal, ← checkName_eq_none]
    rcases hstands k info stage hprogress hk with hk | ⟨hcheck, -⟩
    · exact h.checked k info stage hprogress hk
    · exact hcheck
  · intro k info id hk
    rw [hlinks]
    exact h.drawn_le k info id (hdrawn k info id hk)
  · intro k info id hk name handle
    rw [hlinkOf]
    exact h.drawn_unused k info id (hdrawn k info id hk) name handle
  · intro j k info info' id hj hk
    exact h.drawn_inj j k info info' id (hdrawn j info id hj) (hdrawn k info' id hk)

/-- The invariant is kept by the draw of a link id. -/
private lemma RegistryInv.draw (h : RegistryInv s) {k : ℕ} {info : HostInfo}
    (hentered : s.Stands k info .entered) (hregistry : t.registry = s.registry.drawLink.1)
    (hstands : ∀ j info' stage, InProgress stage → t.Stands j info' stage →
      s.Stands j info' stage ∨ j = k ∧ info' = info ∧ stage = .drawn s.registry.drawLink.2) :
    RegistryInv t := by
  have hlinks : t.registry.links = s.registry.links + 1 := by rw [hregistry]; rfl
  have hhosts : t.registry.hosts = s.registry.hosts := by rw [hregistry]; rfl
  have hlocal : t.registry.localHost = s.registry.localHost := by rw [hregistry]; rfl
  have hlinkOf : ∀ name, t.registry.linkOf name = s.registry.linkOf name := fun name => by
    rw [HostRegistry.linkOf, hhosts, HostRegistry.linkOf]
  have hdrawn : ∀ j info' id, t.Stands j info' (.drawn id) →
      s.Stands j info' (.drawn id) ∨ j = k ∧ id = s.registry.links + 1 := by
    intro j info' id hj
    rcases hstands j info' (.drawn id) trivial hj with hj | ⟨hj, -, hstage⟩
    · exact Or.inl hj
    · exact Or.inr ⟨hj, AdmissionStage.drawn.inj hstage⟩
  refine ⟨by rw [hhosts]; exact h.online_iff, by rw [hhosts]; exact h.size_le,
    by rw [hhosts, hlocal]; exact h.names, ?_, ?_, ?_, ?_, ?_, ?_⟩
  · intro name id handle hlink
    rw [hlinkOf] at hlink
    have hle := h.link_le name id handle hlink
    omega
  · intro name name' id handle handle' hlink hlink'
    rw [hlinkOf] at hlink hlink'
    exact h.link_inj name name' id handle handle' hlink hlink'
  · intro j info' stage hprogress hj
    rw [checkName_eq_none, hlocal, ← checkName_eq_none]
    rcases hstands j info' stage hprogress hj with hj | ⟨-, rfl, -⟩
    · exact h.checked j info' stage hprogress hj
    · exact h.checked k info' .entered trivial hentered
  · intro j info' id hj
    rcases hdrawn j info' id hj with hj | ⟨-, hid⟩
    · have hle := h.drawn_le j info' id hj
      omega
    · omega
  · intro j info' id hj name handle hlink
    rw [hlinkOf] at hlink
    rcases hdrawn j info' id hj with hj | ⟨-, hid⟩
    · exact h.drawn_unused j info' id hj name handle hlink
    · have hle := h.link_le name id handle hlink
      omega
  · intro i j info' info'' id hi hj
    rcases hdrawn i info' id hi with hi | ⟨hik, hid⟩ <;>
      rcases hdrawn j info'' id hj with hj | ⟨hjk, hid'⟩
    · exact h.drawn_inj i j info' info'' id hi hj
    · have hle := h.drawn_le i info' id hi
      omega
    · have hle := h.drawn_le j info'' id hj
      omega
    · omega

/-- The invariant is kept by an insertion. -/
private lemma RegistryInv.insert (h : RegistryInv s) {k id handle now : ℕ} {info : HostInfo}
    {closed : Option ℕ} (hdrawn : s.Stands k info (.drawn id))
    (hinsert : s.registry.insertHost info id handle now = .ok (t.registry, closed))
    (hstands : ∀ j info' stage, InProgress stage → t.Stands j info' stage →
      s.Stands j info' stage ∧ j ≠ k) : RegistryInv t := by
  obtain ⟨hregistry, -, hroom, -⟩ := HostRegistry.insertHost_eq_ok hinsert
  have hhosts : t.registry.hosts =
      s.registry.hosts.insert info.name ⟨info, .online now, some (id, handle)⟩ := by rw [hregistry]
  have hlinks : t.registry.links = s.registry.links := by rw [hregistry]
  have hlocal : t.registry.localHost = s.registry.localHost := by rw [hregistry]
  have hget : ∀ name host, t.registry.hosts.get? name = some host →
      name = info.name ∧ host = ⟨info, .online now, some (id, handle)⟩ ∨
        s.registry.hosts.get? name = some host := by
    intro name host hhost
    rw [hhosts, SortedMap.get?_insert] at hhost
    split at hhost
    · next hname => exact Or.inl ⟨hname, (Option.some.inj hhost).symm⟩
    · exact Or.inr hhost
  have hlinkOf := linkOf_insert hhosts
  have hunused := h.drawn_unused k info id hdrawn
  refine ⟨?_, ?_, ?_, ?_, ?_, ?_, ?_, ?_, ?_⟩
  · intro name host hhost
    rcases hget name host hhost with ⟨-, rfl⟩ | hhost
    · rfl
    · exact h.online_iff name host hhost
  · rw [hhosts]
    cases hold : s.registry.hosts.get? info.name with
    | some host =>
      rw [SortedMap.size_insert_of_some hold]
      exact h.size_le
    | none =>
      rw [SortedMap.size_insert_of_none hold]
      exact hroom hold
  · intro name host hhost
    rw [hlocal]
    rcases hget name host hhost with ⟨rfl, -⟩ | hhost
    · exact checkName_eq_none.mp (h.checked k info (.drawn id) trivial hdrawn)
    · exact h.names name host hhost
  · intro name id' handle' hlink
    rw [hlinks]
    rw [hlinkOf] at hlink
    split at hlink
    · obtain ⟨rfl, -⟩ := Prod.mk.inj (Option.some.inj hlink)
      exact h.drawn_le k info _ hdrawn
    · exact h.link_le name id' handle' hlink
  · intro name name' id' handle' handle'' hlink hlink'
    rw [hlinkOf] at hlink hlink'
    split at hlink <;> split at hlink'
    · next hname hname' => rw [hname, hname']
    · obtain ⟨rfl, -⟩ := Prod.mk.inj (Option.some.inj hlink)
      exact absurd hlink' (hunused name' handle'')
    · obtain ⟨rfl, -⟩ := Prod.mk.inj (Option.some.inj hlink')
      exact absurd hlink (hunused name handle')
    · exact h.link_inj name name' id' handle' handle'' hlink hlink'
  · intro j info' stage hprogress hj
    rw [checkName_eq_none, hlocal, ← checkName_eq_none]
    exact h.checked j info' stage hprogress (hstands j info' stage hprogress hj).1
  · intro j info' id' hj
    rw [hlinks]
    exact h.drawn_le j info' id' (hstands j info' (.drawn id') trivial hj).1
  · intro j info' id' hj name handle' hlink
    obtain ⟨hj, hne⟩ := hstands j info' (.drawn id') trivial hj
    rw [hlinkOf] at hlink
    split at hlink
    · obtain ⟨rfl, -⟩ := Prod.mk.inj (Option.some.inj hlink)
      exact hne (h.drawn_inj j k info' info _ hj hdrawn)
    · exact h.drawn_unused j info' id' hj name handle' hlink
  · intro i j info' info'' id' hi hj
    exact h.drawn_inj i j info' info'' id' (hstands i info' (.drawn id') trivial hi).1
      (hstands j info'' (.drawn id') trivial hj).1

/-- The invariant is kept by a disconnect. -/
private lemma RegistryInv.disconnect (h : RegistryInv s) {name : String} {id now : ℕ}
    (hcurrent : s.registry.isCurrent name id = true)
    (hregistry : t.registry = (s.registry.disconnected name id now).1)
    (hadmissions : t.admissions = s.admissions) : RegistryInv t := by
  obtain ⟨old, handle, hold, -, hdisconnected⟩ := HostRegistry.disconnected_of_current now hcurrent
  rw [hdisconnected] at hregistry
  have hhosts : t.registry.hosts =
      s.registry.hosts.insert name { old with link := none, status := .offline now } := by
    rw [hregistry]
  have hlinks : t.registry.links = s.registry.links := by rw [hregistry]
  have hlocal : t.registry.localHost = s.registry.localHost := by rw [hregistry]
  have hlinkOf : ∀ name' id' handle', t.registry.linkOf name' = some (id', handle') →
      s.registry.linkOf name' = some (id', handle') := by
    intro name' id' handle' hlink
    rw [linkOf_insert hhosts] at hlink
    split at hlink
    · cases hlink
    · exact hlink
  have hstands : ∀ k info stage, t.Stands k info stage → s.Stands k info stage := by
    rintro k info stage ⟨handle', hk⟩
    exact ⟨handle', hadmissions ▸ hk⟩
  refine ⟨?_, ?_, ?_, ?_, ?_, ?_, ?_, ?_, ?_⟩
  · intro name' host hhost
    rw [hhosts, SortedMap.get?_insert] at hhost
    split at hhost
    · obtain rfl := Option.some.inj hhost
      rfl
    · exact h.online_iff name' host hhost
  · rw [hhosts, SortedMap.size_insert_of_some hold]
    exact h.size_le
  · intro name' host hhost
    rw [hlocal]
    rw [hhosts, SortedMap.get?_insert] at hhost
    split at hhost
    · next hname =>
      subst hname
      exact h.names _ old hold
    · exact h.names name' host hhost
  · intro name' id' handle' hlink
    rw [hlinks]
    exact h.link_le name' id' handle' (hlinkOf name' id' handle' hlink)
  · intro name' name'' id' handle' handle'' hlink hlink'
    exact h.link_inj name' name'' id' handle' handle'' (hlinkOf _ _ _ hlink) (hlinkOf _ _ _ hlink')
  · intro k info stage hprogress hk
    rw [checkName_eq_none, hlocal, ← checkName_eq_none]
    exact h.checked k info stage hprogress (hstands k info stage hk)
  · intro k info id' hk
    rw [hlinks]
    exact h.drawn_le k info id' (hstands k info _ hk)
  · intro k info id' hk name' handle' hlink
    exact h.drawn_unused k info id' (hstands k info _ hk) name' handle' (hlinkOf _ _ _ hlink)
  · intro i j info info' id' hi hj
    exact h.drawn_inj i j info info' id' (hstands i info _ hi) (hstands j info' _ hj)

/-- The invariant is kept by every step. -/
lemma RegistryInv.step (h : RegistryInv s) (hstep : s.step a = some t) : RegistryInv t := by
  cases registry_step hstep with
  | keep hregistry _ hstands => exact h.keep hregistry hstands
  | prune now hregistry _ hstands => exact h.prune hregistry hstands
  | draw k info hentered hregistry _ hstands => exact h.draw hentered hregistry hstands
  | insert k info id handle now closed hdrawn hinsert _ hstands =>
    exact h.insert hdrawn hinsert hstands
  | disconnect name id now hcurrent hregistry _ hadmissions =>
    exact h.disconnect hcurrent hregistry hadmissions

/-- The invariant holds in every reachable state. -/
lemma registryInv_of_run {localHost : HostInfo} {started : ℕ} {as : List RegistryAction}
    (hrun : run step (new localHost started) as = some s) : RegistryInv s :=
  run_invariant (fun _ _ _ h hstep => h.step hstep) (registryInv_new localHost started) hrun

/-- No step changes the identity of the hub. -/
lemma localHost_step (hstep : s.step a = some t) :
    t.registry.localHost = s.registry.localHost := by
  cases registry_step hstep with
  | keep hregistry => rw [hregistry]
  | prune now hregistry =>
    rw [hregistry]
    rcases s.registry.prune_cases now with hsame | ⟨-, -, -, hlocal⟩
    · rw [hsame]
    · exact hlocal
  | draw _ _ _ hregistry => rw [hregistry]; rfl
  | insert _ _ _ _ _ _ _ hinsert => rw [(HostRegistry.insertHost_eq_ok hinsert).1]
  | disconnect name id now hcurrent hregistry =>
    obtain ⟨_, _, -, -, hdisconnected⟩ := HostRegistry.disconnected_of_current now hcurrent
    rw [hregistry, hdisconnected]

/-! ## Links that are replaced or removed are closed -/

/-- A link that has served a name serves it still or has been closed. -/
def ServesOrClosed (s : RegistryState) (name : String) (id handle : ℕ) : Prop :=
  s.registry.linkOf name = some (id, handle) ∨ handle ∈ s.closed

lemma ServesOrClosed.step {name : String} {id handle : ℕ} (h : ServesOrClosed s name id handle)
    (hinv : RegistryInv s) (hstep : s.step a = some t) : ServesOrClosed t name id handle := by
  cases registry_step hstep with
  | keep hregistry hclosed => rwa [ServesOrClosed, hregistry, hclosed]
  | prune now hregistry hclosed =>
    rwa [ServesOrClosed, hclosed, hregistry, linkOf_prune now name (hinv.online_iff name)]
  | draw k info _ hregistry hclosed =>
    rw [ServesOrClosed, hclosed, hregistry]
    exact h
  | insert k info id' handle' now closed _ hinsert hclosed =>
    obtain ⟨hregistry, rfl, -⟩ := HostRegistry.insertHost_eq_ok hinsert
    have hhosts : t.registry.hosts =
        s.registry.hosts.insert info.name ⟨info, .online now, some (id', handle')⟩ := by
      rw [hregistry]
    have hlinkOf := linkOf_insert hhosts name
    rw [ServesOrClosed, hclosed, List.mem_append]
    rcases h with hserves | hmem
    · by_cases hname : name = info.name
      · -- the replaced link is the one that the insertion closes
        subst hname
        rw [hserves]
        exact Or.inr (Or.inr (by simp))
      · left
        rw [hlinkOf, if_neg hname]
        exact hserves
    · exact Or.inr (Or.inl hmem)
  | disconnect name' id' now hcurrent hregistry hclosed =>
    obtain ⟨old, handle', hold, hlink, hdisconnected⟩ :=
      HostRegistry.disconnected_of_current now hcurrent
    rw [hdisconnected] at hregistry hclosed
    have hhosts : t.registry.hosts =
        s.registry.hosts.insert name' { old with link := none, status := .offline now } := by
      rw [hregistry]
    have hlinkOf := linkOf_insert hhosts name
    rw [ServesOrClosed, hclosed, List.mem_append]
    rcases h with hserves | hmem
    · by_cases hname : name = name'
      · subst hname
        rw [HostRegistry.linkOf, hold, Option.bind_some, hlink] at hserves
        obtain ⟨-, rfl⟩ := Prod.mk.inj (Option.some.inj hserves)
        exact Or.inr (Or.inr (by simp))
      · left
        rw [hlinkOf, if_neg hname]
        exact hserves
    · exact Or.inr (Or.inl hmem)

/-! ## The change counter -/

/-- A step that removes a host counts a change. -/
lemma changes_of_removal {name : String} (hstep : s.step a = some t)
    (hbefore : (s.registry.hosts.get? name).isSome)
    (hafter : t.registry.hosts.get? name = none) :
    s.registry.changes < t.registry.changes := by
  cases registry_step hstep with
  | keep hregistry =>
    rw [hregistry] at hafter
    simp [hafter] at hbefore
  | prune now hregistry =>
    rcases s.registry.prune_cases now with hsame | ⟨-, hchanges, -⟩
    · rw [hregistry, hsame] at hafter
      simp [hafter] at hbefore
    · rw [hregistry, hchanges]
      exact Nat.lt_succ_self _
  | draw k info _ hregistry =>
    have hsame : t.registry.hosts = s.registry.hosts := by rw [hregistry]; rfl
    rw [hsame] at hafter
    simp [hafter] at hbefore
  | insert k info id handle now closed _ hinsert =>
    rw [(HostRegistry.insertHost_eq_ok hinsert).1]
    exact Nat.lt_succ_self _
  | disconnect name' id now hcurrent hregistry =>
    obtain ⟨_, _, -, -, hdisconnected⟩ := HostRegistry.disconnected_of_current now hcurrent
    rw [hregistry, hdisconnected]
    exact Nat.lt_succ_self _

/-! ## The guarantees -/

/-- What the registry guarantees after the run `as` that ends in the state `s`. -/
structure Guarantees (localHost : HostInfo) (started : ℕ) (as : List RegistryAction)
    (s : RegistryState) : Prop where
  /-- A remote host is online exactly if it holds a link. -/
  online_iff_link : ∀ name host, s.registry.hosts.get? name = some host →
    (host.status.isOnline = true ↔ host.link.isSome = true)
  hosts_limited : s.registry.hosts.size ≤ HOST_LIMIT
  names_valid : ∀ name host, s.registry.hosts.get? name = some host →
    validHostName name = true ∧ name ≠ localHost.name
  link_ids_distinct : ∀ name name' id handle handle', s.registry.linkOf name = some (id, handle) →
    s.registry.linkOf name' = some (id, handle') → name = name'
  /-- A link that has served a name and does not any more, because it was replaced or removed, has
  been closed. -/
  replaced_links_closed : ∀ before after u name id handle, as = before ++ after →
    run step (new localHost started) before = some u →
    u.registry.linkOf name = some (id, handle) →
    s.registry.linkOf name ≠ some (id, handle) → handle ∈ s.closed
  /-- A disconnect of a link that does not serve the name changes nothing. -/
  disconnect_needs_current : ∀ name id now, s.registry.isCurrent name id = false →
    s.step (.disconnected name id now) = some s
  /-- An online host of another machine keeps its name: the insertion is refused and changes
  neither the registry nor any link. -/
  refuses_other_machine : ∀ k info handle id now host,
    s.admissions[k]? = some ⟨info, handle, .drawn id⟩ →
    s.registry.hosts.get? info.name = some host → host.status.isOnline = true →
    host.info.machineId ≠ info.machineId →
    s.step (.insertHost k now) = some { s with
      admissions := s.setStage k (.done (.error (.otherMachine info.name))) }
  /-- A new name over the limit is refused in the same way. -/
  refuses_over_limit : ∀ k info handle id now,
    s.admissions[k]? = some ⟨info, handle, .drawn id⟩ →
    s.registry.hosts.get? info.name = none → s.registry.hosts.size = HOST_LIMIT →
    s.step (.insertHost k now) = some { s with
      admissions := s.setStage k (.done (.error .hostLimit)) }
  /-- What every call of `admit` does before its insertion: a name that fails the checks is
  refused at once, otherwise the registry is pruned, and later a link id is drawn. -/
  opening_prunes : ∀ info handle now, s.step (.enter info handle now) = some (
    match s.registry.checkName info with
    | some error =>
      { s with admissions := s.admissions ++ [⟨info, handle, .done (.error error)⟩] }
    | none => { s with
        registry := s.registry.prune now
        admissions := s.admissions ++ [⟨info, handle, .entered⟩] })
  draw_counts_links : ∀ k t, s.step (.drawLink k) = some t →
    t.registry = { s.registry with links := s.registry.links + 1 } ∧ t.closed = s.closed
  /-- Every admission counts a change. -/
  admission_counts : ∀ k now t info handle id,
    s.step (.insertHost k now) = some t →
    t.admissions[k]? = some ⟨info, handle, .done (.ok id)⟩ →
    t.registry.changes = s.registry.changes + 1
  /-- Every effective disconnect counts a change. -/
  disconnect_counts : ∀ name id now t, s.registry.isCurrent name id = true →
    s.step (.disconnected name id now) = some t → t.registry.changes = s.registry.changes + 1
  /-- Every step that removes a host counts a change. -/
  removal_counts : ∀ b t name, s.step b = some t → (s.registry.hosts.get? name).isSome = true →
    t.registry.hosts.get? name = none → s.registry.changes < t.registry.changes

variable {localHost : HostInfo} {started : ℕ} {as : List RegistryAction}

/-- The identity of the hub in every reachable state. -/
lemma localHost_of_run (hrun : run step (new localHost started) as = some s) :
    s.registry.localHost = localHost := by
  refine run_invariant (I := fun s => s.registry.localHost = localHost) (fun s a t h hstep => ?_)
    rfl hrun
  rw [localHost_step hstep, h]

/-- A link that served a name in the course of a run serves it at the end or has been closed. -/
lemma servesOrClosed_of_run {before after : List RegistryAction} {u : RegistryState}
    {name : String} {id handle : ℕ} (hbefore : run step (new localHost started) before = some u)
    (hserves : u.registry.linkOf name = some (id, handle)) (hafter : run step u after = some s) :
    ServesOrClosed s name id handle := by
  have hboth : RegistryInv s ∧ ServesOrClosed s name id handle :=
    run_invariant (I := fun s => RegistryInv s ∧ ServesOrClosed s name id handle)
      (fun s a t h hstep => ⟨h.1.step hstep, h.2.step h.1 hstep⟩)
      ⟨registryInv_of_run hbefore, Or.inl hserves⟩ hafter
  exact hboth.2

/-- An admission that succeeds counts a change. -/
lemma changes_of_admission {k now id handle : ℕ} {info : HostInfo}
    (hstep : s.step (.insertHost k now) = some t)
    (hdone : t.admissions[k]? = some ⟨info, handle, .done (.ok id)⟩) :
    t.registry.changes = s.registry.changes + 1 := by
  simp only [step] at hstep
  split at hstep
  · next info' handle' id' hk =>
    split at hstep
    · obtain rfl := Option.some.inj hstep
      simp [setStage, hk] at hdone
    · next registry closed hinsert =>
      obtain rfl := Option.some.inj hstep
      rw [(HostRegistry.insertHost_eq_ok hinsert).1]
  · cases hstep

/-- The host registry as a state machine: after every run of interleaved admissions, disconnects,
prunes and reads, every guarantee of `Guarantees` holds. -/
theorem registry_guarantees {localHost : HostInfo} {started : ℕ} {as : List RegistryAction}
    {s : RegistryState} (hrun : run step (new localHost started) as = some s) :
    Guarantees localHost started as s := by
  have hinv := registryInv_of_run hrun
  refine ⟨?_, hinv.size_le, ?_, hinv.link_inj, ?_, ?_, ?_, ?_, ?_, ?_, ?_, ?_, ?_⟩
  · intro name host hget
    rw [hinv.online_iff name host hget]
  · intro name host hget
    rw [← localHost_of_run hrun]
    exact hinv.names name host hget
  · intro before after u name id handle has hbefore hserves hgone
    rw [has] at hrun
    obtain ⟨v, hv, hafter⟩ := run_append_eq_some.mp hrun
    obtain rfl : v = u := Option.some.inj (hv.symm.trans hbefore)
    exact (servesOrClosed_of_run hbefore hserves hafter).resolve_left hgone
  · intro name id now hcurrent
    have hsame := HostRegistry.disconnected_of_not_current now hcurrent
    simp [step, hsame]
  · intro k info handle id now host hk hget honline hmachine
    have hlink : host.link.isSome = true := by
      rw [← hinv.online_iff _ host hget]
      exact honline
    simp only [step, hk, HostRegistry.insertHost_of_otherMachine id handle now hget hlink hmachine]
  · intro k info handle id now hk hget hfull
    simp only [step, hk, HostRegistry.insertHost_of_full id handle now hget hfull.ge]
  · intro info handle now
    simp only [step]
    cases s.registry.checkName info <;> rfl
  · intro k t hstep
    simp only [step] at hstep
    split at hstep
    · obtain rfl := Option.some.inj hstep
      exact ⟨rfl, rfl⟩
    · cases hstep
  · intro k now t info handle id hstep hdone
    exact changes_of_admission hstep hdone
  · intro name id now t hcurrent hstep
    obtain ⟨_, _, -, -, hdisconnected⟩ := HostRegistry.disconnected_of_current now hcurrent
    obtain rfl := Option.some.inj hstep
    simp only [hdisconnected]
  · intro b t name hstep hbefore hafter
    exact changes_of_removal hstep hbefore hafter

/-- An identity with the given name and machine. -/
def info (name machineId : String) : HostInfo := ⟨name, machineId, "v", none, "x86_64"⟩

/-- Two hosts that disconnect, and a third that stays online. -/
def twoOfflineOneOnline : List RegistryAction :=
  [.enter (info "a" "m1") 1 0, .drawLink 0, .insertHost 0 0,
    .enter (info "b" "m2") 2 0, .drawLink 1, .insertHost 1 0,
    .enter (info "c" "m3") 3 0, .drawLink 2, .insertHost 2 0,
    .disconnected "a" 1 0, .disconnected "b" 2 0]

/-- The guarantees hold after two of three hosts have disconnected. -/
theorem registry_guarantees_of_disconnects :
    ∃ s, run step (new (info "hub" "h") 0) twoOfflineOneOnline = some s ∧
      Guarantees (info "hub" "h") 0 twoOfflineOneOnline s :=
  ⟨_, rfl, registry_guarantees rfl⟩

/-- When the retention of the offline hosts has passed, an admission under the name of the online
host from another machine is refused, and yet removes both offline hosts; their removal counts one
change only. -/
theorem refusal_prunes_twoOfflineOneOnline :
    ∃ s t, run step (new (info "hub" "h") 0) twoOfflineOneOnline = some s ∧
      run step s [.enter (info "c" "m4") 4 600000, .drawLink 3, .insertHost 3 600000] = some t ∧
      t.admissions[3]? = some ⟨info "c" "m4", 4, .done (.error (.otherMachine "c"))⟩ ∧
      s.registry.hosts.keys = ["a", "b", "c"] ∧ t.registry.hosts.keys = ["c"] ∧
      t.registry.changes = s.registry.changes + 1 :=
  ⟨_, _, rfl, rfl, by decide +kernel, by decide +kernel, by decide +kernel, by decide +kernel⟩

end RegistryState

end Procinsh
