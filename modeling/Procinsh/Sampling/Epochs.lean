import Procinsh.Sampling.Sampler

/-!
# Samples and the mappings they were accepted under

In every run of a sampler the samples of a thread that are accepted get newer, and what is retained is the
last of them, with the number of the mappings that were passed to the call that accepted it.  A number
never stands for two lists of mappings, and what is listed contains each number of a retained sample
once.  A thread that is met anew under an old number starts without samples.

What a call does with a thread is a sequence of updates, each of which notes something or takes over a
sample (`Evolves`); the invariants follow from that.
-/

namespace Procinsh.Sampling

open Ipc

/-! ## Updates of a thread -/

/-- What the updates of a call make of a thread.  Samples are taken over under the mappings of the call. -/
inductive Evolves [Target] (maps : List MemoryMap) (context : MappingSnapshot) (origin : Thread) :
    Thread → Prop
  | refl : Evolves maps context origin origin
  | note (t : Thread) (event switchEvent : Option PerfEventReader) (ptraceError error : Option String)
      (lost : UInt64) (h : Evolves maps context origin t) :
      Evolves maps context origin { t with
        event := event
        switchEvent := switchEvent
        ptraceError := ptraceError
        latest := { t.latest with error := error, lostSamples := lost } }
  | sample (t : Thread) (moment : Moment) (sample : RawSample) (hmaps : context.maps = maps)
      (h : Evolves maps context origin t) :
      Evolves maps context origin (processSample moment t sample maps context)

theorem Evolves.trans [Target] {maps : List MemoryMap} {context : MappingSnapshot} {a b c : Thread}
    (hab : Evolves maps context a b) (hbc : Evolves maps context b c) : Evolves maps context a c := by
  induction hbc with
  | refl => exact hab
  | note t event switchEvent ptraceError error lost h ih => exact .note t _ _ _ _ _ ih
  | sample t moment sample hmaps h ih => exact .sample t _ _ hmaps ih

/-- What is retained of the last accepted sample. -/
def Retains (t : Thread) : Option (RawSample × List MemoryMap) → Prop
  | none => t.sampledNs = none ∧ t.latest.sampleTimeNs = none ∧ t.latest.rawRegisters = none ∧
      t.latest.stackBytes = [] ∧ t.latest.mapEpoch = none ∧ t.latest.context = none
  | some (sample, maps) => t.sampledNs = some sample.timeNs ∧
      t.latest.sampleTimeNs = some sample.timeNs ∧
      t.latest.rawRegisters = some { sample.registers with codePacMask := t.codePacMask } ∧
      t.latest.stackBytes = sample.stack ∧
      ∃ epoch, t.latest.mapEpoch = some epoch ∧ t.latest.context = some ⟨epoch, maps⟩

/-- The accepted samples get newer, the last of them is retained, and its mappings are known. -/
structure Thread.Valid (contexts : List MappingSnapshot) (t : Thread) : Prop where
  ascending : t.accepted.Pairwise fun a b => a.1.timeNs < b.1.timeNs
  retains : Retains t t.accepted.getLast?
  known : ∀ c ∈ t.latest.context, c ∈ contexts

/-- What one call has made of a thread: the samples that were accepted, and everything but the error and
the count of lost samples left alone if there are none. -/
structure Continues (maps : List MemoryMap) (old new : Thread) (added : List RawSample) : Prop where
  startTime : new.startTime = old.startTime
  accepted : new.accepted = old.accepted ++ added.map fun sample => (sample, maps)
  unchanged : added = [] → new.sampledNs = old.sampledNs ∧ new.codePacMask = old.codePacMask ∧
    { new.latest with error := old.latest.error, lostSamples := old.latest.lostSamples } = old.latest

/-- The time of what is retained is that of the last accepted sample. -/
theorem Retains.sampledNs_eq {t : Thread} {last : Option (RawSample × List MemoryMap)} (h : Retains t last) :
    t.sampledNs = last.map fun e => e.1.timeNs := by
  cases last with
  | none => exact h.1
  | some e => exact h.1

section Evolves

variable [Target] {maps : List MemoryMap} {context : MappingSnapshot} {origin t : Thread}
  {contexts : List MappingSnapshot}

/-- A sample that is not newer changes nothing. -/
theorem processSample_of_le {moment : Moment} {sample : RawSample} {time : UInt64}
    (htime : t.sampledNs = some time) (hle : sample.timeNs ≤ time) :
    processSample moment t sample maps context = t := by
  rw [processSample, htime, if_pos]
  exact decide_eq_true hle

/-- Taking over a sample keeps a thread valid. -/
theorem Thread.Valid.processSample (h : t.Valid contexts) (moment : Moment) (sample : RawSample)
    (hcontext : context ∈ contexts) (hmaps : context.maps = maps) :
    (processSample moment t sample maps context).Valid contexts := by
  unfold Sampling.processSample
  split
  · exact h
  · next hnewer =>
    have hlast : ∀ e ∈ t.accepted, e.1.timeNs < sample.timeNs := by
      have htime := h.retains.sampledNs_eq
      have hascending := h.ascending
      rcases List.eq_nil_or_concat' t.accepted with hnil | ⟨before, last, hconcat⟩
      · rw [hnil]
        exact fun e he => absurd he List.not_mem_nil
      · rw [hconcat, List.getLast?_concat, Option.map_some] at htime
        rw [htime, Option.any_some, decide_eq_true_eq, UInt64.not_le] at hnewer
        rw [hconcat] at hascending ⊢
        intro e he
        rcases List.mem_append.mp he with he | he
        · have hbefore := (List.pairwise_append.mp hascending).2.2 e he last List.mem_cons_self
          exact UInt64.lt_trans hbefore hnewer
        · rw [List.mem_singleton.mp he]
          exact hnewer
    refine ⟨?_, ?_, ?_⟩
    · refine List.pairwise_append.mpr ⟨h.ascending, List.pairwise_singleton _ _, fun a ha b hb => ?_⟩
      rw [List.mem_singleton.mp hb]
      exact hlast a ha
    · subst hmaps
      rw [List.getLast?_append, List.getLast?_singleton]
      exact ⟨rfl, rfl, rfl, rfl, context.epoch, rfl, rfl⟩
    · rintro c ⟨⟩
      exact hcontext

theorem Evolves.valid (h : Evolves maps context origin t) (horigin : origin.Valid contexts)
    (hcontext : context ∈ contexts) : t.Valid contexts := by
  induction h with
  | refl => exact horigin
  | note t event switchEvent ptraceError error lost h ih =>
    refine ⟨ih.ascending, ?_, ih.known⟩
    have hretains := ih.retains
    cases hlast : t.accepted.getLast? with
    | none =>
      rw [hlast] at hretains
      exact hretains
    | some e =>
      rw [hlast] at hretains
      exact hretains
  | sample t moment sample hmaps h ih => exact ih.processSample moment sample hcontext hmaps

theorem Evolves.continues (h : Evolves maps context origin t) :
    ∃ added, Continues maps origin t added := by
  induction h with
  | refl => exact ⟨[], rfl, (List.append_nil _).symm, fun _ => ⟨rfl, rfl, rfl⟩⟩
  | note t event switchEvent ptraceError error lost h ih =>
    obtain ⟨added, ih⟩ := ih
    exact ⟨added, ih.startTime, ih.accepted, ih.unchanged⟩
  | sample t moment sample hmaps h ih =>
    obtain ⟨added, ih⟩ := ih
    unfold processSample
    split
    · exact ⟨added, ih⟩
    · refine ⟨added ++ [sample], ih.startTime, ?_, fun hnil => ?_⟩
      · change t.accepted ++ [(sample, maps)] = _
        rw [ih.accepted, List.map_append, List.append_assoc]
        rfl
      · exact absurd hnil (List.append_ne_nil_of_right_ne_nil _ (List.cons_ne_nil _ _))

end Evolves

/-! ## Calls -/

section Calls

variable [Target] {maps : List MemoryMap} {context : MappingSnapshot} {before s s' : Sampler}
  {contexts : List MappingSnapshot}

theorem drainThread_evolves {found : Found} (origin : Thread) (hmaps : context.maps = maps) :
    Evolves maps context origin (drainThread found maps context origin) := by
  unfold drainThread
  dsimp only
  split
  · exact .sample _ _ _ hmaps (.note origin _ _ origin.ptraceError _ _ .refl)
  · exact .note origin _ _ origin.ptraceError _ _ .refl

theorem ptraceThread_evolves {round : PtraceRound} (tid : ℤ) (origin : Thread)
    (hmaps : context.maps = maps) :
    Evolves maps context origin (Sampler.ptraceThread round maps context tid origin) := by
  unfold Sampler.ptraceThread
  split
  · exact .sample _ _ _ hmaps (.note origin origin.event origin.switchEvent none _ _ .refl)
  · exact .note origin origin.event origin.switchEvent _ _ _ .refl

/-- A thread as it is when it is met for the first time. -/
def Fresh (t : Thread) : Prop := ∃ header found startTime, t = openThread header found startTime

omit [Target] in
theorem Fresh.valid {t : Thread} (h : Fresh t) : t.Valid contexts := by
  obtain ⟨header, found, startTime, rfl⟩ := h
  exact ⟨List.Pairwise.nil, ⟨rfl, rfl, rfl, rfl, rfl, rfl⟩, fun c hc => absurd hc (Option.not_mem_none c)⟩

namespace Sampler

/-- Each thread has come from one under the same number, or was met for the first time. -/
def Descends (maps : List MemoryMap) (context : MappingSnapshot) (before after : Sampler) : Prop :=
  ∀ tid t, after.threads.get? tid = some t → ∃ origin,
    (before.threads.get? tid = some origin ∨ Fresh origin) ∧ Evolves maps context origin t

theorem Descends.refl (s : Sampler) : Descends maps context s s :=
  fun _ t ht => ⟨t, Or.inl ht, .refl⟩

theorem Descends.of_threads_eq (h : s.threads = before.threads) : Descends maps context before s :=
  fun _ t ht => ⟨t, Or.inl (h ▸ ht), .refl⟩

/-- Further updates of the threads under their numbers. -/
theorem Descends.update (h : Descends maps context before s) {after : Sampler}
    (hafter : ∀ tid t, after.threads.get? tid = some t → ∃ origin,
      (s.threads.get? tid = some origin ∨ Fresh origin) ∧ Evolves maps context origin t) :
    Descends maps context before after := by
  intro tid t ht
  obtain ⟨mid, hmid | hfresh, hevolves⟩ := hafter tid t ht
  · obtain ⟨origin, horigin, hto⟩ := h tid mid hmid
    exact ⟨origin, horigin, hto.trans hevolves⟩
  · exact ⟨mid, Or.inr hfresh, hevolves⟩

omit [Target] in
theorem threadOf_origin (s : Sampler) (found : Found) (startTime : UInt64) :
    s.threads.get? found.tid.toInt = some (s.threadOf found startTime) ∨
      Fresh (s.threadOf found startTime) := by
  unfold threadOf
  split
  · next t ht =>
    split
    · exact Or.inl ht
    · exact Or.inr ⟨_, _, _, rfl⟩
  · exact Or.inr ⟨_, _, _, rfl⟩

variable (maps) in
theorem context_visit (s : Sampler) (found : Found) : (visit maps s found).context = s.context := by
  unfold visit
  split <;> rfl

theorem descends_visit (hmaps : s.context.maps = maps) (h : Descends maps s.context before s)
    (found : Found) : Descends maps s.context before (visit maps s found) := by
  unfold visit
  split
  · exact h
  · next startTime _ =>
    refine h.update fun tid t ht => ?_
    rw [SortedMap.get?_insert] at ht
    split at ht
    · next htid =>
      obtain rfl := Option.some.inj ht
      exact htid ▸ ⟨_, threadOf_origin s found startTime, drainThread_evolves _ hmaps⟩
    · exact ⟨t, Or.inl ht, .refl⟩

variable (maps) in
theorem context_foldl_visit (s : Sampler) (found : List Found) :
    (found.foldl (visit maps) s).context = s.context := by
  induction found generalizing s with
  | nil => rfl
  | cons f found ih => exact (ih _).trans (context_visit maps s f)

theorem descends_foldl_visit (hmaps : s.context.maps = maps) (h : Descends maps s.context before s)
    (found : List Found) : Descends maps s.context before (found.foldl (visit maps) s) := by
  induction found generalizing s with
  | nil => exact h
  | cons f found ih =>
    have hcontext := context_visit maps s f
    rw [← hcontext]
    exact ih (by rw [hcontext, hmaps]) (by rw [hcontext]; exact descends_visit hmaps h f)

theorem descends_capturePtrace (hmaps : s.context.maps = maps) (h : Descends maps s.context before s)
    (round : PtraceRound) : Descends maps s.context before (s.capturePtrace round maps).1 := by
  refine h.update fun tid t ht => ?_
  rw [capturePtrace, SortedMap.get?_mapEntries, Option.map_eq_some_iff] at ht
  obtain ⟨origin, horigin, rfl⟩ := ht
  exact ⟨origin, Or.inl horigin, ptraceThread_evolves tid origin hmaps⟩

/-- The mappings have not changed, or have the next number. -/
def Refreshed (maps : List MemoryMap) (before after : Sampler) : Prop :=
  after.context = before.context ∨
    (after.context.epoch.toNat = before.context.epoch.toNat + 1 ∧ after.context.maps = maps)

omit [Target] in
theorem refreshContext_spec (h : s.refreshContext maps = some s') :
    Refreshed maps s s' ∧ s'.context.maps = maps ∧ s'.threads = s.threads := by
  unfold refreshContext at h
  split at h
  · next heq =>
    obtain rfl := Option.some.inj h
    exact ⟨Or.inl rfl, heq, rfl⟩
  · split at h
    · next hroom =>
      obtain rfl := Option.some.inj h
      refine ⟨Or.inr ⟨?_, rfl⟩, rfl, rfl⟩
      rw [UInt64.toNat_add]
      exact Nat.mod_eq_of_lt hroom
    · cases h

/-- What a poll does with the mappings and the threads. -/
theorem poll_spec {input : PollInput} {result : Except String Unit}
    (h : s.poll maps input = some (s', result)) :
    Refreshed maps s s' ∧ (result = .ok () → s'.context.maps = maps) ∧
      Descends maps s'.context s s' := by
  unfold poll at h
  split at h
  · obtain ⟨rfl, rfl⟩ := Prod.mk.inj (Option.some.inj h)
    exact ⟨Or.inl rfl, fun h => (by cases h), .refl s⟩
  · obtain ⟨mid, hmid, h⟩ := Option.map_eq_some_iff.mp h
    obtain ⟨hrefreshed, hmaps, hthreads⟩ := refreshContext_spec hmid
    have hstart : Descends maps mid.context s mid := .of_threads_eq hthreads
    split at h
    · obtain ⟨rfl, rfl⟩ := Prod.mk.inj h
      exact ⟨hrefreshed, fun _ => hmaps, hstart⟩
    · next found _ =>
      have hvisited := descends_foldl_visit hmaps hstart found
      have hcontext := context_foldl_visit maps mid found
      generalize found.foldl (visit maps) mid = visited at h hvisited hcontext
      let kept := { visited with threads := visited.threads.filter fun tid _ => tid ∈ alive found }
      have hkept : Descends maps kept.context s kept := by
        rw [show kept.context = mid.context from hcontext]
        refine hvisited.update fun tid t ht => ?_
        rw [SortedMap.get?_filter, Option.filter_eq_some_iff] at ht
        exact ⟨t, Or.inl ht.1, .refl⟩
      have hkeptMaps : kept.context.maps = maps := by rw [← hmaps, ← hcontext]
      have hcaptured := descends_capturePtrace hkeptMaps hkept input.ptrace
      have hs' : s'.context = mid.context ∧ Descends maps s'.context s s' := by
        dsimp only at h
        split at h
        · split at h
          all_goals
            next hcapture =>
            obtain ⟨rfl, rfl⟩ := Prod.mk.inj h
            obtain ⟨rfl, -⟩ := Prod.mk.inj hcapture
            exact ⟨hcontext, hcaptured⟩
        · obtain ⟨rfl, rfl⟩ := Prod.mk.inj h
          exact ⟨hcontext, hkept⟩
      refine ⟨?_, fun _ => hs'.1 ▸ hmaps, hs'.2⟩
      rw [Refreshed, hs'.1]
      exact hrefreshed

/-- What a call does with the mappings and the threads. -/
theorem call_spec {c : Call} (h : s.call c = some s') :
    Refreshed c.maps s s' ∧ Descends c.maps s'.context s s' := by
  cases c with
  | poll maps input =>
    obtain ⟨⟨t, result⟩, hpoll, rfl⟩ := Option.map_eq_some_iff.mp h
    obtain ⟨hrefreshed, -, hdescends⟩ := poll_spec hpoll
    exact ⟨hrefreshed, hdescends⟩
  | bootstrap maps input round =>
    obtain ⟨⟨t, result⟩, hbootstrap, rfl⟩ := Option.map_eq_some_iff.mp h
    obtain ⟨⟨mid, polled⟩, hpoll, hrest⟩ := Option.map_eq_some_iff.mp hbootstrap
    obtain ⟨hrefreshed, hmaps, hdescends⟩ := poll_spec hpoll
    cases polled with
    | error e =>
      obtain ⟨rfl, -⟩ := Prod.mk.inj hrest
      exact ⟨hrefreshed, hdescends⟩
    | ok u =>
      have hcapture := descends_capturePtrace (hmaps rfl) hdescends round
      obtain rfl := congrArg Prod.fst hrest
      exact ⟨hrefreshed, hcapture⟩

/-! ## Runs -/

/-- The mappings of the run so far have different numbers, the current ones have the last, and the threads
are valid. -/
structure Valid (contexts : List MappingSnapshot) (s : Sampler) : Prop where
  numbered : contexts.Pairwise fun a b => a.epoch.toNat < b.epoch.toNat
  current : contexts.getLast? = some s.context
  threads : ∀ tid t, s.threads.get? tid = some t → t.Valid contexts

omit [Target] in
theorem new_valid (id : ProcessId) (header : Option (List.Vector UInt8 20)) :
    (new id header).Valid [⟨0, []⟩] :=
  ⟨List.pairwise_singleton _ _, rfl, fun tid t ht => by cases ht⟩

omit [Target] in
theorem valid_append {t : Thread} (h : t.Valid contexts) (more : List MappingSnapshot) :
    t.Valid (contexts ++ more) :=
  ⟨h.ascending, h.retains, fun c hc => List.mem_append_left more (h.known c hc)⟩

omit [Target] in
/-- New mappings have a number of their own. -/
theorem Refreshed.numbered (h : Refreshed maps s s') (hs : s.Valid contexts) :
    ∃ more, (contexts ++ more).Pairwise (fun a b => a.epoch.toNat < b.epoch.toNat) ∧
      (contexts ++ more).getLast? = some s'.context := by
  rcases h with hsame | ⟨hnext, -⟩
  · exact ⟨[], by rw [List.append_nil]; exact hs.numbered, by rw [List.append_nil, hs.current, hsame]⟩
  · refine ⟨[s'.context], List.pairwise_append.mpr ⟨hs.numbered, List.pairwise_singleton _ _, ?_⟩,
      List.getLast?_concat⟩
    intro a ha b hb
    have hle : a.epoch.toNat ≤ s.context.epoch.toNat := by
      obtain ⟨before, hbefore⟩ := List.getLast?_eq_some_iff.mp hs.current
      have hnumbered := hs.numbered
      rw [hbefore] at ha hnumbered
      rcases List.mem_append.mp ha with ha | ha
      · exact ((List.pairwise_append.mp hnumbered).2.2 a ha _ List.mem_cons_self).le
      · rw [List.mem_singleton.mp ha]
    rw [List.mem_singleton.mp hb]
    omega

/-- A call keeps a sampler valid. -/
theorem call_valid {c : Call} (h : s.call c = some s') (hs : s.Valid contexts) :
    ∃ more, s'.Valid (contexts ++ more) := by
  obtain ⟨hrefreshed, hdescends⟩ := call_spec h
  obtain ⟨more, hnumbered, hcurrent⟩ := hrefreshed.numbered hs
  refine ⟨more, hnumbered, hcurrent, fun tid t ht => ?_⟩
  obtain ⟨origin, horigin, hevolves⟩ := hdescends tid t ht
  refine hevolves.valid ?_ (List.mem_of_getLast? hcurrent)
  rcases horigin with horigin | hfresh
  · exact valid_append (hs.threads tid origin horigin) more
  · exact hfresh.valid

theorem run_valid {calls : List Call} (h : s.run calls = some s') (hs : s.Valid contexts) :
    ∃ more, s'.Valid (contexts ++ more) := by
  induction calls generalizing s contexts with
  | nil =>
    obtain rfl := Option.some.inj h
    exact ⟨[], by rwa [List.append_nil]⟩
  | cons c calls ih =>
    obtain ⟨mid, hmid, hrest⟩ := Option.bind_eq_some_iff.mp h
    obtain ⟨more, hvalid⟩ := call_valid hmid hs
    obtain ⟨more', hvalid'⟩ := ih hrest hvalid
    exact ⟨more ++ more', by rwa [← List.append_assoc]⟩

end Sampler

end Calls

end Procinsh.Sampling
