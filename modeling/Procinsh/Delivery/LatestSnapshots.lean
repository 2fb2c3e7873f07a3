import Procinsh.Delivery.MergedBaselines

/-!
# The latest snapshots of the merged stream

The stream correlates the connections of the hosts from one table, `latest`, with an entry for each
host name.  A forwarder writes the entry of its host whenever it has encoded a snapshot and removes
it when its session ends.  The entry does not say which forwarder it comes from, so the forwarder of
a link that has been replaced removes or overwrites the entry of its successor.

The entry is the last snapshot of the newest forwarder in every state of a run exactly if no
forwarder of a replaced link hands over another snapshot, or ends, after the newest one has handed
over its first.
-/

namespace Procinsh

/-! ## Forwarders of one host -/

/-- The last snapshot that the forwarder has handed over, while it forwards its session. -/
def Forwarder.last? (f : Forwarder) : Option Json :=
  if f.stage = .forwarding then f.encoded.getLast?.map Encoded.snapshot else none

/-- The forwarder of a host that was started last; it forwards the current link of the host. -/
def newest? (forwarders : List Forwarder) (host : String) : Option Forwarder :=
  (forwarders.filter fun f => f.host = host).getLast?

/-- Whether a forwarder of the host has been started after the forwarder `k`. -/
def superseded (forwarders : List Forwarder) (k : ℕ) (host : String) : Bool :=
  (forwarders.drop (k + 1)).any fun f => f.host = host

/-- The last snapshot that the forwarder of the current link of a host has handed over. -/
def handedOver (forwarders : List Forwarder) (host : String) : Option Json :=
  (newest? forwarders host).bind Forwarder.last?

/-- The newest forwarder of a host is among the later ones, if one of them is of the host. -/
lemma newest?_append (forwarders later : List Forwarder) (host : String) :
    newest? (forwarders ++ later) host = (newest? later host).or (newest? forwarders host) := by
  rw [newest?, List.filter_append, List.getLast?_append]
  rfl

lemma newest?_singleton (f : Forwarder) (host : String) :
    newest? [f] host = if f.host = host then some f else none := by
  unfold newest?
  split
  · next h => simp [h]
  · next h => simp [h]

/-- A forwarder is superseded when a later one is the newest. -/
lemma newest?_eq_none_iff {forwarders : List Forwarder} {host : String} :
    newest? forwarders host = none ↔ (forwarders.any fun f => f.host = host) = false := by
  rw [newest?, List.getLast?_eq_none_iff, List.filter_eq_nil_iff, List.any_eq_false]

/-- The newest forwarder of a host, when the forwarder `k` moves on. -/
lemma newest?_set {forwarders : List Forwarder} {k : ℕ} {f f' : Forwarder}
    (hk : forwarders[k]? = some f) (hhost : f'.host = f.host) (host : String) :
    newest? (forwarders.set k f') host =
      if f.host = host ∧ superseded forwarders k host = false then some f'
      else newest? forwarders host := by
  obtain ⟨hlt, rfl⟩ := List.getElem?_eq_some_iff.mp hk
  have hold : newest? forwarders host = ((newest? (forwarders.drop (k + 1)) host).or
      (if forwarders[k].host = host then some forwarders[k] else none)).or
        (newest? (forwarders.take k) host) := by
    rw [← newest?_singleton, ← newest?_append, ← newest?_append, List.singleton_append,
      List.getElem_cons_drop, List.take_append_drop]
  have hnew : newest? (forwarders.set k f') host = ((newest? (forwarders.drop (k + 1)) host).or
      (if forwarders[k].host = host then some f' else none)).or
        (newest? (forwarders.take k) host) := by
    rw [← hhost, ← newest?_singleton, ← newest?_append, ← newest?_append, List.singleton_append,
      List.set_eq_take_append_cons_drop, if_pos hlt]
  rw [hnew, hold, superseded]
  cases hlater : newest? (forwarders.drop (k + 1)) host with
  | none =>
    rw [newest?_eq_none_iff] at hlater
    rw [hlater]
    by_cases h : forwarders[k].host = host
    · simp [h]
    · simp [h]
  | some g =>
    have hany : ((forwarders.drop (k + 1)).any fun f => f.host = host) ≠ false := by
      rw [ne_eq, ← newest?_eq_none_iff, hlater]
      exact Option.some_ne_none g
    have hnot : ¬ (forwarders[k].host = host ∧
        ((forwarders.drop (k + 1)).any fun f => f.host = host) = false) := fun h => hany h.2
    rw [if_neg hnot]
    rfl

/-- A forwarder that is not superseded is the newest of its host. -/
lemma newest?_of_not_superseded {forwarders : List Forwarder} {k : ℕ} {f : Forwarder}
    (hk : forwarders[k]? = some f) (h : superseded forwarders k f.host = false) :
    newest? forwarders f.host = some f := by
  have hset := newest?_set hk (rfl : f.host = f.host) f.host
  have hsame : forwarders.set k f = forwarders := by
    obtain ⟨hlt, rfl⟩ := List.getElem?_eq_some_iff.mp hk
    exact List.set_getElem_self hlt
  rw [if_pos ⟨rfl, h⟩, hsame] at hset
  exact hset

/-- What has been handed over, when the forwarder `k` moves on. -/
lemma handedOver_set {forwarders : List Forwarder} {k : ℕ} {f f' : Forwarder}
    (hk : forwarders[k]? = some f) (hhost : f'.host = f.host) (host : String) :
    handedOver (forwarders.set k f') host =
      if f.host = host ∧ superseded forwarders k host = false then f'.last?
      else handedOver forwarders host := by
  rw [handedOver, newest?_set hk hhost, handedOver]
  split
  · rfl
  · rfl

/-- A forwarder that has just been started has handed over nothing. -/
lemma handedOver_concat_observing (forwarders : List Forwarder) (name host : String) :
    handedOver (forwarders ++ [.new name .observing]) host =
      if name = host then none else handedOver forwarders host := by
  have hname : (Forwarder.new name .observing).host = name := rfl
  rw [handedOver, newest?_append, newest?_singleton, hname]
  by_cases h : name = host
  · rw [if_pos h, if_pos h]
    rfl
  · rw [if_neg h, if_neg h]
    rfl

/-- What a forwarder has handed over after it has encoded an event. -/
lemma Forwarder.last?_encode {f f' : Forwarder} {k : ℕ} {event : MonitorEvent} {now : ℕ}
    (h : f.encode k event now = some f') (hstage : f.stage = .forwarding) :
    f'.host = f.host ∧ f'.stage = .forwarding ∧ f'.last? = event.snapshot?.or f.last? := by
  obtain ⟨encoded, -, rfl⟩ := Option.map_eq_some_iff.mp h
  refine ⟨rfl, hstage, ?_⟩
  rw [Forwarder.last?, Forwarder.last?, if_pos hstage, if_pos hstage]
  cases event.snapshot? with
  | none => simp
  | some snapshot => simp

namespace MergedState

variable {s t : MergedState} {a : MergedAction} {correlate : List (String × Json) → Json}

/-! ## Steps -/

/-- What an action does to the forwarders and the table. -/
inductive LatestStep (s : MergedState) : MergedAction → MergedState → Prop
  | stay {a : MergedAction} {t : MergedState} (hforwarders : t.forwarders = s.forwarders)
      (hlatest : t.latest = s.latest) (hreceive : ∀ k event now, a ≠ .receive k event now)
      (hfinish : ∀ k, a ≠ .finish k) : LatestStep s a t
  | start {t : MergedState} (hforwarders : t.forwarders = s.forwardLinks.forwarders)
      (hlatest : t.latest = s.latest) : LatestStep s .startForwarders t
  | observed {t : MergedState} (k : ℕ) (f : Forwarder) (hk : s.forwarders[k]? = some f)
      (hstage : f.stage = .observing)
      (hforwarders : t.forwarders = s.forwarders.set k { f with stage := .forwarding })
      (hlatest : t.latest = s.latest) : LatestStep s (.observed k) t
  | refused {t : MergedState} (k : ℕ) (f : Forwarder) (hk : s.forwarders[k]? = some f)
      (hforwarders : t.forwarders = s.forwarders.set k { f with stage := .ended })
      (hlatest : t.latest = s.latest) : LatestStep s (.refused k) t
  | receive {t : MergedState} (k : ℕ) (f f' : Forwarder) (event : MonitorEvent) (now : ℕ)
      (hk : s.forwarders[k]? = some f) (hstage : f.stage = .forwarding)
      (hencode : f.encode k event now = some f') (hforwarders : t.forwarders = s.forwarders.set k f')
      (hlatest : t.latest = (event.snapshot?.map (s.latest.insert f.host)).getD s.latest) :
      LatestStep s (.receive k event now) t
  | panic {t : MergedState} (k : ℕ) (f : Forwarder) (event : MonitorEvent) (now : ℕ)
      (hk : s.forwarders[k]? = some f) (hencode : f.encode k event now = none)
      (hforwarders : t.forwarders = s.forwarders.set k { f with stage := .ended })
      (hlatest : t.latest = s.latest) : LatestStep s (.receive k event now) t
  | send {t : MergedState} (k : ℕ) (f : Forwarder) (messages : List MergedMessage)
      (hk : s.forwarders[k]? = some f) (hstage : f.stage = .forwarding)
      (hforwarders : t.forwarders = s.forwarders.set k { f with messages := messages })
      (hlatest : t.latest = s.latest) : LatestStep s (.send k) t
  | finish {t : MergedState} (k : ℕ) (f : Forwarder) (hk : s.forwarders[k]? = some f)
      (hforwarders : t.forwarders = s.forwarders.set k { f with stage := .ended })
      (hlatest : t.latest = s.latest.erase f.host) : LatestStep s (.finish k) t

/-- Forwarding links does not change the table. -/
private lemma latest_forwardLinks (s : MergedState) : s.forwardLinks.latest = s.latest := by
  refine List.foldlRecOn (motive := fun u : MergedState => u.latest = s.latest) s.registry.online _ rfl
    fun u hu link _ => ?_
  rw [forwardLink]
  split
  · exact hu
  · exact hu

/-- What each action does to the forwarders and the table. -/
lemma latest_step (hstep : s.step correlate a = some t) : LatestStep s a t := by
  cases effect_of_step hstep with
  | change change => exact .stay rfl rfl (fun _ _ _ h => by cases h) fun _ h => by cases h
  | startForwarders hstage => exact .start rfl (latest_forwardLinks s)
  | listHosts now hstage => exact .stay rfl rfl (fun _ _ _ h => by cases h) fun _ h => by cases h
  | takeMessage hstage hincoming =>
    exact .stay rfl rfl (fun _ _ _ h => by cases h) fun _ h => by cases h
  | links hstage hlinks => exact .stay rfl rfl (fun _ _ _ h => by cases h) fun _ h => by cases h
  | sameLinks hstage hlinks =>
    exact .stay rfl rfl (fun _ _ _ h => by cases h) fun _ h => by cases h
  | observed hk hstage => exact .observed _ _ hk hstage rfl rfl
  | refused hk hstage => exact .refused _ _ hk rfl rfl
  | receive hk hstage hidle hencode => exact .receive _ _ _ _ _ hk hstage hencode rfl rfl
  | panic hk hstage hidle hencode => exact .panic _ _ _ _ hk hencode rfl rfl
  | send hk hstage hmessages hcapacity => exact .send _ _ _ hk hstage rfl rfl
  | finish hk hstage hidle => exact .finish _ _ hk rfl rfl
  | handle hconnected hnext =>
    exact .stay rfl rfl (fun _ _ _ h => by cases h) fun _ h => by cases h

/-- A forwarder that waits for its session has encoded nothing. -/
def ObservingEmpty (s : MergedState) : Prop :=
  ∀ f ∈ s.forwarders, f.stage = .observing → f.encoded = []

/-- The table has the last snapshot that the forwarder of the current link of each host has handed
over. -/
def LatestCurrent (s : MergedState) : Prop :=
  ∀ host snapshot, handedOver s.forwarders host = some snapshot →
    s.latest.get? host = some snapshot

/-- The forwarder of a replaced link takes the entry of its successor: it ends, or it hands over
another snapshot. -/
def Overtakes (s : MergedState) : MergedAction → Prop
  | .finish k => ∃ f, s.forwarders[k]? = some f ∧ superseded s.forwarders k f.host = true ∧
      handedOver s.forwarders f.host ≠ none
  | .receive k event now => ∃ f snapshot current, s.forwarders[k]? = some f ∧
      superseded s.forwarders k f.host = true ∧ f.encode k event now ≠ none ∧
      event.snapshot? = some snapshot ∧ handedOver s.forwarders f.host = some current ∧
      snapshot ≠ current
  | _ => False

/-- A forwarder that moves on does not go back to waiting. -/
private lemma ObservingEmpty.set {k : ℕ} {f' : Forwarder} (h : s.ObservingEmpty)
    (hforwarders : t.forwarders = s.forwarders.set k f') (hstage : f'.stage ≠ .observing) :
    t.ObservingEmpty := by
  intro g hg hobserving
  rw [hforwarders] at hg
  rcases List.mem_or_eq_of_mem_set hg with hold | rfl
  · exact h g hold hobserving
  · exact absurd hobserving hstage

/-- Forwarders that wait for their session have encoded nothing, in every run. -/
lemma observingEmpty_step (h : s.ObservingEmpty) (hstep : s.step correlate a = some t) :
    t.ObservingEmpty := by
  cases latest_step hstep with
  | stay hforwarders =>
    rw [ObservingEmpty, hforwarders]
    exact h
  | start hforwarders =>
    rw [ObservingEmpty, hforwarders]
    refine List.foldlRecOn (motive := fun u : MergedState => u.ObservingEmpty) s.registry.online _ h
      fun u hu link _ => ?_
    rw [forwardLink]
    split
    · exact hu
    · intro f hf hobserving
      rcases List.mem_append.mp hf with hold | hnew
      · exact hu f hold hobserving
      · rw [List.mem_singleton.mp hnew]
        rfl
  | observed k f hk hstage hforwarders => exact h.set hforwarders fun hstage => by cases hstage
  | refused k f hk hforwarders => exact h.set hforwarders fun hstage => by cases hstage
  | receive k f f' event now hk hstage hencode hforwarders =>
    refine h.set hforwarders ?_
    rw [(Forwarder.last?_encode hencode hstage).2.1]
    decide
  | panic k f event now hk hencode hforwarders => exact h.set hforwarders fun hstage => by cases hstage
  | send k f messages hk hstage hforwarders =>
    refine h.set hforwarders ?_
    change f.stage ≠ _
    rw [hstage]
    decide
  | finish k f hk hforwarders => exact h.set hforwarders fun hstage => by cases hstage

/-- The table is current as long as no more has been handed over. -/
private lemma LatestCurrent.keep (h : s.LatestCurrent)
    (hhanded : ∀ host, handedOver t.forwarders host = none ∨
      handedOver t.forwarders host = handedOver s.forwarders host)
    (hlatest : t.latest = s.latest) : t.LatestCurrent := by
  intro host snapshot hsnapshot
  rw [hlatest]
  rcases hhanded host with hnone | hsame
  · rw [hnone] at hsnapshot
    cases hsnapshot
  · rw [hsame] at hsnapshot
    exact h host snapshot hsnapshot

/-- New forwarders have handed over nothing. -/
private lemma handedOver_forwardLinks (s : MergedState) (host : String) :
    handedOver s.forwardLinks.forwarders host = none ∨
      handedOver s.forwardLinks.forwarders host = handedOver s.forwarders host := by
  refine List.foldlRecOn (motive := fun u : MergedState =>
    handedOver u.forwarders host = none ∨
      handedOver u.forwarders host = handedOver s.forwarders host) s.registry.online _ (.inr rfl)
    fun u hu link _ => ?_
  rw [forwardLink]
  split
  · exact hu
  · change handedOver (u.forwarders ++ [.new link.1 .observing]) host = none ∨ _
    rw [handedOver_concat_observing]
    split
    · exact .inl rfl
    · exact hu

/-- A forwarder that has handed over nothing new, or stops, hands over nothing. -/
private lemma handedOver_set_keep {k : ℕ} {f f' : Forwarder} (hk : s.forwarders[k]? = some f)
    (hforwarders : t.forwarders = s.forwarders.set k f') (hhost : f'.host = f.host)
    (hlast : f'.last? = none ∨ f'.last? = f.last?) (host : String) :
    handedOver t.forwarders host = none ∨
      handedOver t.forwarders host = handedOver s.forwarders host := by
  rw [hforwarders, handedOver_set hk hhost]
  split
  · next h =>
    refine hlast.imp id fun hsame => ?_
    obtain ⟨rfl, hnewest⟩ := h
    rw [hsame, handedOver, newest?_of_not_superseded hk hnewest]
    rfl
  · exact .inr rfl

/-- A snapshot that a forwarder hands over is the entry of its host.  It is the wrong one if the
forwarder is superseded and the newest has handed over another. -/
private lemma latestCurrent_receive {k : ℕ} {f f' : Forwarder} {event : MonitorEvent} {now : ℕ}
    {snapshot : Json} (h : s.LatestCurrent) (hk : s.forwarders[k]? = some f)
    (hhost : f'.host = f.host) (hlast : f'.last? = some snapshot)
    (hencode : f.encode k event now = some f') (hsnapshot : event.snapshot? = some snapshot)
    (hforwarders : t.forwarders = s.forwarders.set k f')
    (hlatest : t.latest = s.latest.insert f.host snapshot) :
    t.LatestCurrent ↔ ¬ s.Overtakes (.receive k event now) := by
  have hother : ∀ host, host ≠ f.host →
      handedOver t.forwarders host = handedOver s.forwarders host := fun host hne => by
    rw [hforwarders, handedOver_set hk hhost, if_neg fun hboth => hne hboth.1.symm]
  have hcurrent : t.LatestCurrent ↔
      ∀ current, handedOver t.forwarders f.host = some current → snapshot = current := by
    constructor
    · intro ht current hhanded
      have hentry := ht f.host current hhanded
      rw [hlatest, SortedMap.get?_insert_self] at hentry
      exact Option.some.inj hentry
    · intro hsame host current hhanded
      rw [hlatest]
      by_cases hne : host = f.host
      · subst hne
        rw [SortedMap.get?_insert_self, hsame current hhanded]
      · rw [SortedMap.get?_insert_ne _ _ hne]
        exact h host current (hother host hne ▸ hhanded)
  rw [hcurrent, hforwarders, handedOver_set hk hhost]
  cases hsuperseded : superseded s.forwarders k f.host with
  | false =>
    rw [if_pos ⟨rfl, rfl⟩, hlast]
    refine iff_of_true (fun current hsame => Option.some.inj hsame) ?_
    rintro ⟨g, -, -, hg, hover, -⟩
    obtain rfl := Option.some.inj (hk.symm.trans hg)
    rw [hsuperseded] at hover
    cases hover
  | true =>
    rw [if_neg fun hboth => by cases hboth.2]
    constructor
    · rintro hsame ⟨g, snapshot', current, hg, -, -, hsnapshot', hhanded, hne⟩
      obtain rfl := Option.some.inj (hk.symm.trans hg)
      obtain rfl := Option.some.inj (hsnapshot.symm.trans hsnapshot')
      exact hne (hsame current hhanded)
    · intro hover current hhanded
      by_contra hne
      refine hover ⟨f, snapshot, current, hk, hsuperseded, ?_, hsnapshot, hhanded, hne⟩
      rw [hencode]
      exact Option.some_ne_none f'

/-- A forwarder that ends removes the entry of its host, also one of its successor. -/
private lemma latestCurrent_finish {k : ℕ} {f : Forwarder} (h : s.LatestCurrent)
    (hk : s.forwarders[k]? = some f)
    (hforwarders : t.forwarders = s.forwarders.set k { f with stage := .ended })
    (hlatest : t.latest = s.latest.erase f.host) :
    t.LatestCurrent ↔ ¬ s.Overtakes (.finish k) := by
  have hset : ∀ host, handedOver t.forwarders host =
      if f.host = host ∧ superseded s.forwarders k host = false then none
      else handedOver s.forwarders host := fun host => by
    rw [hforwarders]
    refine handedOver_set hk ?_ host
    rfl
  have hother : ∀ host, host ≠ f.host →
      handedOver t.forwarders host = handedOver s.forwarders host := fun host hne => by
    rw [hset, if_neg fun hboth => hne hboth.1.symm]
  have hcurrent : t.LatestCurrent ↔ handedOver t.forwarders f.host = none := by
    constructor
    · intro ht
      by_contra hsome
      obtain ⟨current, hhanded⟩ := Option.ne_none_iff_exists'.mp hsome
      have hentry := ht f.host current hhanded
      rw [hlatest, SortedMap.get?_erase_self] at hentry
      cases hentry
    · intro hnone host current hhanded
      rw [hlatest]
      by_cases hne : host = f.host
      · subst hne
        rw [hnone] at hhanded
        cases hhanded
      · rw [SortedMap.get?_erase_ne _ hne]
        exact h host current (hother host hne ▸ hhanded)
  rw [hcurrent, hset]
  cases hsuperseded : superseded s.forwarders k f.host with
  | false =>
    rw [if_pos ⟨rfl, rfl⟩]
    refine iff_of_true rfl ?_
    rintro ⟨g, hg, hover, -⟩
    obtain rfl := Option.some.inj (hk.symm.trans hg)
    rw [hsuperseded] at hover
    cases hover
  | true =>
    rw [if_neg fun hboth => by cases hboth.2]
    constructor
    · rintro hnone ⟨g, hg, -, hsome⟩
      obtain rfl := Option.some.inj (hk.symm.trans hg)
      exact hsome hnone
    · intro hover
      by_contra hsome
      exact hover ⟨f, hk, hsuperseded, hsome⟩

/-- A step keeps the table current exactly if no forwarder of a replaced link takes the entry of its
successor. -/
lemma latestCurrent_step (hempty : s.ObservingEmpty) (h : s.LatestCurrent)
    (hstep : s.step correlate a = some t) : t.LatestCurrent ↔ ¬ s.Overtakes a := by
  cases latest_step hstep with
  | stay hforwarders hlatest hreceive hfinish =>
    refine iff_of_true (h.keep (fun host => .inr (by rw [hforwarders])) hlatest) fun hover => ?_
    cases a with
    | receive k event now => exact hreceive k event now rfl
    | finish k => exact hfinish k rfl
    | _ => exact hover
  | start hforwarders hlatest =>
    refine iff_of_true (h.keep (fun host => ?_) hlatest) id
    rw [hforwarders]
    exact handedOver_forwardLinks s host
  | observed k f hk hstage hforwarders hlatest =>
    refine iff_of_true (h.keep (handedOver_set_keep hk hforwarders rfl (.inl ?_)) hlatest) id
    have hencoded := hempty f (List.mem_of_getElem? hk) hstage
    simp [Forwarder.last?, hencoded]
  | refused k f hk hforwarders hlatest =>
    exact iff_of_true (h.keep (handedOver_set_keep hk hforwarders rfl (.inl rfl)) hlatest) id
  | panic k f event now hk hencode hforwarders hlatest =>
    refine iff_of_true (h.keep (handedOver_set_keep hk hforwarders rfl (.inl rfl)) hlatest) ?_
    rintro ⟨g, -, -, hg, -, hsome, -⟩
    rw [hk] at hg
    obtain rfl := Option.some.inj hg
    exact hsome hencode
  | send k f messages hk hstage hforwarders hlatest =>
    exact iff_of_true (h.keep (handedOver_set_keep hk hforwarders rfl (.inr rfl)) hlatest) id
  | receive k f f' event now hk hstage hencode hforwarders hlatest =>
    obtain ⟨hhost, -, hlast⟩ := Forwarder.last?_encode hencode hstage
    cases hsnapshot : event.snapshot? with
    | none =>
      rw [hsnapshot] at hlast hlatest
      refine iff_of_true (h.keep (handedOver_set_keep hk hforwarders hhost (.inr hlast)) hlatest) ?_
      rintro ⟨g, snapshot, current, -, -, -, hsome, -⟩
      rw [hsnapshot] at hsome
      cases hsome
    | some snapshot =>
      rw [hsnapshot] at hlast hlatest
      exact latestCurrent_receive h hk hhost hlast hencode hsnapshot hforwarders hlatest
  | finish k f hk hforwarders hlatest => exact latestCurrent_finish h hk hforwarders hlatest

/-! ## Runs -/

/-- A new stream has handed over nothing. -/
private lemma latestCurrent_new (registry : HostRegistry) :
    (new registry).ObservingEmpty ∧ (new registry).LatestCurrent := by
  have hnone : ∀ host, handedOver (new registry).forwarders host = none := by
    intro host
    change handedOver [.new registry.localHost.name .forwarding] host = none
    rw [handedOver, newest?_singleton]
    split
    · rfl
    · rfl
  constructor
  · intro f hf _
    rw [List.mem_singleton.mp hf]
    rfl
  · intro host snapshot hsnapshot
    rw [hnone] at hsnapshot
    cases hsnapshot

/-- The table is current in every state of a run exactly if no forwarder of a replaced link takes the
entry of its successor in the run. -/
theorem latest_current_iff {registry : HostRegistry} {as : List MergedAction}
    (hrun : run (step correlate) (new registry) as = some t) :
    (∀ bs u, bs <+: as → run (step correlate) (new registry) bs = some u → u.LatestCurrent) ↔
      Guarded (fun s a => ¬ s.Overtakes a) (step correlate) (new registry) as := by
  obtain ⟨hempty, hcurrent⟩ := latestCurrent_new registry
  exact forall_run_iff_guarded (fun s a t => observingEmpty_step)
    (fun s a t => latestCurrent_step) hempty hcurrent hrun

/-- Two links that follow one another: the forwarder of the first ends before the second connects. -/
theorem latest_current_of_successiveLinks :
    ∃ t, run (step fun _ => .null) (new hubRegistry) successiveLinks = some t ∧
      ((∀ bs u, bs <+: successiveLinks →
          run (step fun _ => .null) (new hubRegistry) bs = some u → u.LatestCurrent) ↔
        Guarded (fun s a => ¬ s.Overtakes a) (step fun _ => .null) (new hubRegistry)
          successiveLinks) := by
  have hrun : run (step fun _ => .null) (new hubRegistry) successiveLinks =
      some ((run (step fun _ => .null) (new hubRegistry) successiveLinks).get (by decide +kernel)) :=
    (Option.some_get _).symm
  exact ⟨_, hrun, latest_current_iff hrun⟩

/-- An agent connects anew while the forwarder of its first link still runs, and that one ends after
the second has handed over a snapshot. -/
def replacedLink : List MergedAction :=
  connectAgent 1 ++ forwardSample 1 "0x1000" 0 ++ connectAgent 2 ++ forwardSample 2 "0x2000" 1 ++
    [.finish 1]

/-- Whether the entry of a host is missing although the forwarder of its current link has handed over
a snapshot. -/
def missesEntry (s : MergedState) (host : String) (link : ℕ) : Bool :=
  decide ((host, link) ∈ s.registry.online) && decide (s.forwarded.get? host = some link) &&
    (handedOver s.forwarders host).isSome && (s.latest.get? host).isNone

private lemma not_latestCurrent_of_missesEntry {host : String} {link : ℕ}
    (h : s.missesEntry host link = true) : ¬ s.LatestCurrent := by
  intro hcurrent
  simp only [missesEntry, Bool.and_eq_true, Option.isNone_iff_eq_none] at h
  obtain ⟨⟨-, hsome⟩, hnone⟩ := h
  obtain ⟨snapshot, hsnapshot⟩ := Option.isSome_iff_exists.mp hsome
  have hentry := hcurrent host snapshot hsnapshot
  rw [hnone] at hentry
  cases hentry

/-- The entry of the current link is removed when the forwarder of the replaced one ends. -/
theorem missing_entry_of_replacedLink :
    ∃ as s, run (step fun _ => .null) (new hubRegistry) as = some s ∧
      s.missesEntry "agent" 2 = true ∧ ¬ s.LatestCurrent := by
  have hmisses : ((run (step fun _ => .null) (new hubRegistry) replacedLink).get
      (by decide +kernel)).missesEntry "agent" 2 = true := by decide +kernel
  exact ⟨replacedLink, _, (Option.some_get _).symm, hmisses,
    not_latestCurrent_of_missesEntry hmisses⟩

end MergedState

end Procinsh
