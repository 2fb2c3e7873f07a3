import Procinsh.Observation.Processor

/-!
# Histories of processes

What a session keeps for a process is made of its samples one after another.  Its points are in the
order of time, not too many and not too old, as long as samples are not older than those before.
Closing a session forgets what it keeps, and a reply changes only what its own session keeps, as long
as the maps of the processor are not full.
-/

namespace Procinsh

open Ipc

/-! ## Points -/

theorem popFront_suffix (cutoff : UInt64) (points : List HistoryPoint) :
    popFront cutoff points <:+ points := by
  induction points with
  | nil => exact List.suffix_rfl
  | cons point points ih =>
    rw [popFront]
    split
    · exact ih.trans (List.suffix_cons point points)
    · exact List.suffix_rfl

theorem length_popFront_le (cutoff : UInt64) (points : List HistoryPoint) :
    (popFront cutoff points).length ≤ 601 := by
  induction points with
  | nil => exact Nat.zero_le _
  | cons point points ih =>
    rw [popFront]
    split
    · exact ih
    · next hkept => exact Nat.not_lt.mp fun h => hkept (.inr h)

/-- The points are in the order of time. -/
def Ascending (points : List HistoryPoint) : Prop :=
  points.Pairwise fun p q => p.timestamp < q.timestamp

/-- Points that are in the order of time and are kept are not too old. -/
theorem cutoff_le_of_mem_popFront {cutoff : UInt64} {points : List HistoryPoint}
    (h : Ascending points) {p : HistoryPoint} (hp : p ∈ popFront cutoff points) :
    cutoff ≤ p.timestamp := by
  induction points with
  | nil => exact absurd hp List.not_mem_nil
  | cons point points ih =>
    obtain ⟨hpoint, hpoints⟩ := List.pairwise_cons.mp h
    rw [popFront] at hp
    split at hp
    · exact ih hpoints hp
    · next hkept =>
      have hle : cutoff ≤ point.timestamp := UInt64.not_lt.mp fun h => hkept (.inl h)
      rcases List.mem_cons.mp hp with rfl | hp
      · exact hle
      · exact UInt64.le_trans hle (UInt64.le_of_lt (hpoint p hp))

/-- Points in the order of time, not more than 601, that span at most a minute. -/
structure Recent (points : List HistoryPoint) : Prop where
  ascending : Ascending points
  length_le : points.length ≤ 601
  span : ∀ p ∈ points, ∀ q ∈ points, q.timestamp.toNat ≤ p.timestamp.toNat + 60000

theorem recent_nil : Recent [] :=
  ⟨List.Pairwise.nil, Nat.zero_le _, fun _ hp => absurd hp List.not_mem_nil⟩

/-- A later observation keeps the points recent. -/
theorem Recent.append {points : List HistoryPoint} (h : Recent points)
    {observation : ProcessObservation}
    (hlater : ∀ last ∈ points.getLast?, last.timestamp < observation.timestamp) :
    Recent (appendHistoryObservation points observation) := by
  unfold appendHistoryObservation
  generalize hpoint : HistoryPoint.mk observation.timestamp observation.cpuPercent
    observation.rssBytes observation.vmsBytes = point
  have htime : point.timestamp = observation.timestamp := by rw [← hpoint]
  have hbefore : ∀ p ∈ points, p.timestamp < point.timestamp := by
    rcases List.eq_nil_or_concat points with rfl | ⟨before, last, rfl⟩
    · exact fun p hp => absurd hp List.not_mem_nil
    rw [List.concat_eq_append] at hlater h ⊢
    have hlast : last.timestamp < point.timestamp := by
      rw [htime]
      exact hlater last (List.getLast?_concat ..)
    intro p hp
    rcases List.mem_append.mp hp with hp | hp
    · exact UInt64.lt_trans ((List.pairwise_append.mp h.ascending).2.2 p hp last
        (List.mem_singleton_self last)) hlast
    · rw [List.mem_singleton.mp hp]
      exact hlast
  have hall : Ascending (points ++ [point]) := by
    refine List.pairwise_append.mpr ⟨h.ascending, List.pairwise_singleton _ _, ?_⟩
    intro p hp q hq
    rw [List.mem_singleton.mp hq]
    exact hbefore p hp
  have hsuffix := popFront_suffix (saturatingSub observation.timestamp 60000) (points ++ [point])
  refine ⟨hall.sublist hsuffix.sublist, length_popFront_le _ _, fun p hp q hq => ?_⟩
  have hold := UInt64.le_iff_toNat_le.mp (cutoff_le_of_mem_popFront hall hp)
  have hnew : q.timestamp.toNat ≤ observation.timestamp.toNat := by
    rw [← htime]
    rcases List.mem_append.mp (hsuffix.subset hq) with hq | hq
    · exact Nat.le_of_lt (UInt64.lt_iff_toNat_lt.mp (hbefore q hq))
    · rw [List.mem_singleton.mp hq]
  rw [toNat_saturatingSub] at hold
  have hminute : (60000 : UInt64).toNat = 60000 := rfl
  omega

/-! ## The history of samples -/

section History

variable (floats : Floats) (ticksPerSecond : ℕ)

@[simp] theorem timestamp_nextObservation (previous current : ProcessSample) :
    (nextObservation floats ticksPerSecond previous current).timestamp = current.timestamp := rfl

/-- The history that samples make one after another. -/
def historyOf (samples : List ProcessSample) : Option ProcessHistory :=
  samples.foldl (fun history sample =>
    some (ObservationProcessor.observe floats ticksPerSecond history sample)) none

theorem historyOf_concat (samples : List ProcessSample) (sample : ProcessSample) :
    historyOf floats ticksPerSecond (samples ++ [sample]) =
      some (ObservationProcessor.observe floats ticksPerSecond
        (historyOf floats ticksPerSecond samples) sample) := by
  rw [historyOf, List.foldl_append]
  rfl

theorem historyOf_eq_none_iff {samples : List ProcessSample} :
    historyOf floats ticksPerSecond samples = none ↔ samples = [] := by
  refine ⟨fun h => ?_, fun h => h ▸ rfl⟩
  rcases List.eq_nil_or_concat samples with rfl | ⟨before, last, rfl⟩
  · rfl
  · rw [List.concat_eq_append, historyOf_concat] at h
    exact absurd h (Option.some_ne_none _)

/-- Samples of a process in the order in which they were measured. -/
def Measured (samples : List ProcessSample) : Prop :=
  samples.Pairwise fun x y => x.processId = y.processId ∧ x.measuredAt ≤ y.measuredAt ∧
    (x.measuredAt = y.measuredAt → x = y)

/-- Samples of a session are of one process. -/
theorem Measured.processId_eq {samples : List ProcessSample} (h : Measured samples)
    {x y : ProcessSample} (hx : x ∈ samples) (hy : y ∈ samples) : x.processId = y.processId := by
  have hsame : samples.Pairwise fun x y => x.processId = y.processId := h.imp fun hxy => hxy.1
  have hflip : samples.Pairwise (flip fun x y => x.processId = y.processId) :=
    hsame.imp fun hxy => hxy.symm
  exact List.Pairwise.forall_of_forall_of_flip (R := fun x y => x.processId = y.processId)
    (fun x _ => rfl) hsame hflip hx hy

/-- The last sample is kept with its time, and the points are recent. -/
theorem recent_historyOf {samples : List ProcessSample} (h : Measured samples)
    {history : ProcessHistory} (hhistory : historyOf floats ticksPerSecond samples = some history) :
    history.sample ∈ samples ∧ (∀ x ∈ samples, x.measuredAt ≤ history.sample.measuredAt) ∧
      history.observation.timestamp = history.sample.timestamp ∧ Recent history.points := by
  induction samples using List.reverseRecOn generalizing history with
  | nil => exact absurd hhistory.symm (Option.some_ne_none _)
  | append_singleton samples sample ih =>
    obtain ⟨hsamples, -, hlast⟩ := List.pairwise_append.mp h
    have hle : ∀ x ∈ samples, x.measuredAt ≤ sample.measuredAt :=
      fun x hx => (hlast x hx sample (List.mem_singleton_self _)).2.1
    rw [historyOf_concat] at hhistory
    obtain rfl := Option.some_inj.mp hhistory
    refine ⟨List.mem_append_right _ (List.mem_singleton_self _), fun x hx => ?_, ?_⟩
    · rcases List.mem_append.mp hx with hx | hx
      · exact hle x hx
      · rw [List.mem_singleton.mp hx]
        exact UInt64.le_refl _
    -- the history before, or that of the first sample
    generalize hbefore : (historyOf floats ticksPerSecond samples).getD
      ⟨sample, initialObservation sample, []⟩ = before
    have hinv : before.observation.timestamp = before.sample.timestamp ∧ Recent before.points ∧
        (before.sample.measuredAt < sample.measuredAt ∨ before.sample = sample) := by
      cases hhistory : historyOf floats ticksPerSecond samples with
      | none =>
        rw [hhistory] at hbefore
        subst hbefore
        exact ⟨rfl, recent_nil, .inr rfl⟩
      | some history =>
        rw [hhistory] at hbefore
        subst hbefore
        obtain ⟨hmem, -, htime, hrecent⟩ := ih hsamples hhistory
        obtain ⟨-, hmeasured, hsame⟩ := hlast _ hmem sample (List.mem_singleton_self _)
        refine ⟨htime, hrecent, ?_⟩
        by_cases heq : history.sample.measuredAt = sample.measuredAt
        · exact .inr (hsame heq)
        · exact .inl (UInt64.lt_of_le_of_ne hmeasured heq)
    obtain ⟨htime, hrecent, horder⟩ := hinv
    have hobserved : (if before.sample.measuredAt < sample.measuredAt then
        nextObservation floats ticksPerSecond before.sample sample
        else before.observation).timestamp = sample.timestamp := by
      split
      · rfl
      · next hnot => rw [htime, horder.resolve_left hnot]
    unfold ObservationProcessor.observe
    rw [hbefore]
    refine ⟨hobserved, ?_⟩
    dsimp only
    split
    · next hlater =>
      refine hrecent.append fun last hlast => ?_
      rw [hobserved]
      rw [Option.mem_def.mp hlast] at hlater
      exact of_decide_eq_true hlater
    · exact hrecent

end History

/-! ## The processor -/

/-- Whether a value leaves something of its session in the processor. -/
def ObservedValue.historySample (value : ObservedValue) : Option ProcessSample :=
  if value.summary then value.processSample else none

/-- A map that is not full has room. -/
theorem makeRoom_of_lt {κ β : Type} [DecidableEq κ] {m : OrderedMap κ β} {key : κ}
    (h : m.entries.length < maxKept) : makeRoom m key = m :=
  if_neg fun hfull => Nat.not_le.mpr h hfull.1

namespace ObservationProcessor

theorem get?_histories_close (p : ObservationProcessor) (session : UInt64) (key : HistoryKey) :
    (p.close session).histories.get? key =
      if key.1 = session then none else p.histories.get? key := by
  rw [close, OrderedMap.get?_eraseAll]
  by_cases hkey : key.1 = session
  · rw [if_pos hkey]
    split
    · rfl
    · next hmem =>
      apply OrderedMap.get?_eq_none_iff.mpr
      exact fun hentry => hmem (List.mem_filter.mpr ⟨hentry, decide_eq_true hkey⟩)
  · rw [if_neg hkey, if_neg]
    exact fun hmem => hkey (of_decide_eq_true (List.mem_filter.mp hmem).2)

theorem get?_activity_close (p : ObservationProcessor) (session s : UInt64) :
    (p.close session).activity.get? s = if s = session then none else p.activity.get? s := by
  by_cases hs : s = session
  · rw [if_pos hs, hs]
    exact OrderedMap.get?_erase_self _ _
  · rw [if_neg hs]
    exact OrderedMap.get?_erase_ne _ hs

variable (floats : Floats) (ticksPerSecond : ℕ)

/-- What a reply has of a sample, when the session keeps histories of processes. -/
def replyOf (history : ProcessId → Option ProcessHistory) (value : ObservedValue) :
    Option ProcessedSample :=
  match value.historySample with
  | some sample => some (.history
      (observe floats ticksPerSecond (history sample.processId) sample).points
      (observe floats ticksPerSecond (history sample.processId) sample).observation)
  | none => value.processSample.map fun sample =>
      if value.threadsOnly then .threads (initialObservation sample).threads
      else .observation (initialObservation sample)

/-- What a value of a session changes, while the maps are not full. -/
structure Takes (session : UInt64) (value : ObservedValue) (p q : ObservationProcessor)
    (processed : Processed) : Prop where
  other : ∀ key : HistoryKey, key.1 ≠ session ∨ value.historySample = none →
    q.histories.get? key = p.histories.get? key
  observed : ∀ sample, value.historySample = some sample →
    q.histories.get? (session, sample.processId) = some (observe floats ticksPerSecond
      (p.histories.get? (session, sample.processId)) sample) ∧
    ∀ id, id ≠ sample.processId →
      q.histories.get? (session, id) = p.histories.get? (session, id)
  replied : processed.sample =
    replyOf floats ticksPerSecond (fun id => p.histories.get? (session, id)) value
  activity : ∀ s, s ≠ session ∨ value.rawActivity = none → q.activity.get? s = p.activity.get? s
  captured : value.rawActivity ≠ none → q.activity.get? session ≠ none

theorem histories_rememberProcesses (p : ObservationProcessor) (value : ObservedValue) :
    (p.rememberProcesses value).histories = p.histories := by
  unfold rememberProcesses
  split <;> rfl

theorem activity_rememberProcesses (p : ObservationProcessor) (value : ObservedValue) :
    (p.rememberProcesses value).activity = p.activity := by
  unfold rememberProcesses
  split <;> rfl

theorem histories_processActivity (p : ObservationProcessor) (asked : Option UInt64)
    (value : ObservedValue) :
    (p.processActivity ticksPerSecond asked value).1.histories = p.histories := by
  unfold processActivity
  split <;> rfl

/-- Activity of a session is kept for the session only. -/
theorem activity_processActivity {p : ObservationProcessor} {session : UInt64}
    {value : ObservedValue} (hroom : p.activity.entries.length < maxKept) :
    (∀ s, s ≠ session ∨ value.rawActivity = none →
      (p.processActivity ticksPerSecond (some session) value).1.activity.get? s =
        p.activity.get? s) ∧
    (value.rawActivity ≠ none →
      (p.processActivity ticksPerSecond (some session) value).1.activity.get? session ≠ none) := by
  unfold processActivity
  cases value.rawActivity with
  | none => exact ⟨fun s _ => rfl, fun h => absurd rfl h⟩
  | some raw =>
    dsimp only [Option.getD_some]
    rw [makeRoom_of_lt hroom]
    refine ⟨fun s hs => ?_, fun _ => ?_⟩
    · have hs : s ≠ session := hs.resolve_right (Option.some_ne_none raw)
      exact OrderedMap.get?_set_ne _ hs _
    · rw [OrderedMap.get?_set_self]
      exact Option.some_ne_none _

/-- A sample is added to the history of its session and process only. -/
theorem processSample_takes {p r : ObservationProcessor} {session : UInt64} {value : ObservedValue}
    (hroom : p.histories.entries.length < maxKept) (hkept : r.histories = p.histories)
    (hother : ∀ s, s ≠ session ∨ value.rawActivity = none →
      r.activity.get? s = p.activity.get? s)
    (hcaptured : value.rawActivity ≠ none → r.activity.get? session ≠ none)
    (batch : Option ActivityBatch) :
    Takes floats ticksPerSecond session value p
      (r.processSample floats ticksPerSecond (some session) value).1
      ⟨batch, (r.processSample floats ticksPerSecond (some session) value).2⟩ := by
  have hunkept (hnone : value.historySample = none)
      (hsame : (r.processSample floats ticksPerSecond (some session) value).1 = r)
      (hreplied : (r.processSample floats ticksPerSecond (some session) value).2 =
        value.processSample.map fun sample =>
          if value.threadsOnly then .threads (initialObservation sample).threads
          else .observation (initialObservation sample)) :
      Takes floats ticksPerSecond session value p
        (r.processSample floats ticksPerSecond (some session) value).1
        ⟨batch, (r.processSample floats ticksPerSecond (some session) value).2⟩ := by
    rw [hsame, hreplied]
    refine ⟨fun key _ => by rw [hkept], fun sample h => ?_, ?_, hother, hcaptured⟩
    · exact absurd (hnone.symm.trans h).symm (Option.some_ne_none sample)
    · rw [replyOf, hnone]
  cases hsample : value.processSample with
  | none =>
    have hnone : value.historySample = none := by
      rw [ObservedValue.historySample, hsample, ite_self]
    have hprocess : r.processSample floats ticksPerSecond (some session) value = (r, none) := by
      rw [processSample, hsample]
    refine hunkept hnone (by rw [hprocess]) ?_
    rw [hprocess, hsample]
    rfl
  | some current =>
    by_cases hsummary : value.summary = true
    · have hcurrent : value.historySample = some current := by
        rw [ObservedValue.historySample, hsample, if_pos hsummary]
      unfold processSample
      rw [hsample]
      dsimp only [Option.getD_some]
      rw [if_pos hsummary, hkept, makeRoom_of_lt hroom]
      refine ⟨fun key hkey => ?_, fun sample h => ?_, ?_, hother, hcaptured⟩
      · have hne : key.1 ≠ session := hkey.resolve_right (hcurrent ▸ Option.some_ne_none current)
        exact OrderedMap.get?_set_ne _ (fun heq => hne (congrArg Prod.fst heq)) _
      · obtain rfl := Option.some_inj.mp (hcurrent.symm.trans h)
        refine ⟨OrderedMap.get?_set_self _ _ _, fun id hid => ?_⟩
        exact OrderedMap.get?_set_ne _ (fun heq => hid (congrArg Prod.snd heq)) _
      · rw [replyOf, hcurrent]
    · have hnone : value.historySample = none := by
        rw [ObservedValue.historySample, if_neg hsummary]
      have hprocess : r.processSample floats ticksPerSecond (some session) value =
          (r, some (if value.threadsOnly then .threads (initialObservation current).threads
            else .observation (initialObservation current))) := by
        rw [processSample, hsample]
        exact if_neg hsummary
      refine hunkept hnone (by rw [hprocess]) ?_
      rw [hprocess, hsample]
      rfl

/-- The reply to a session that has a value. -/
def AnswersWith (asked : Option UInt64) (reply : HelperReply) (session : UInt64)
    (value : ObservedValue) : Prop :=
  reply = .started session value ∨
    asked = some session ∧ ∃ ended, reply = .event (some value) ended

theorem process_takes {p : ObservationProcessor} {session : UInt64} {value : ObservedValue}
    (hhistories : p.histories.entries.length < maxKept)
    (hactivity : p.activity.entries.length < maxKept) {asked : Option UInt64} {reply : HelperReply}
    (hreply : AnswersWith asked reply session value) :
    ∃ q processed, p.process floats ticksPerSecond asked reply = (q, some processed) ∧
      Takes floats ticksPerSecond session value p q processed := by
  let remembered := (p.rememberProcesses value).processActivity ticksPerSecond (some session) value
  let observed := remembered.1.processSample floats ticksPerSecond (some session) value
  have hprocess : p.process floats ticksPerSecond asked reply =
      (observed.1, some ⟨remembered.2, observed.2⟩) := by
    rcases hreply with rfl | ⟨rfl, ended, rfl⟩
    · rfl
    · rfl
  have hkept : remembered.1.histories = p.histories := by
    rw [histories_processActivity, histories_rememberProcesses]
  have hroom : (p.rememberProcesses value).activity.entries.length < maxKept := by
    rw [activity_rememberProcesses]
    exact hactivity
  obtain ⟨hother, hcaptured⟩ := activity_processActivity ticksPerSecond hroom
  rw [activity_rememberProcesses] at hother
  exact ⟨observed.1, _, hprocess,
    processSample_takes floats ticksPerSecond hhistories hkept hother hcaptured remembered.2⟩

end ObservationProcessor

end Procinsh
