import Procinsh.Activity.CpuTotals

/-!
# Differences of CPU counters

What a batch reports of the CPU use of a key is the difference between its counters and those of the
batch before.  The first half says what one batch reports of a key and keeps for the next.  The
second half follows a key over a run of batches: the differences telescope to the last counter minus
the first.
-/

namespace Procinsh

open Ipc

/-! ## What a batch reports of a key -/

section Reports

variable (ticksPerSecond : ℕ) (p : ActivityProcessor) (raw : CpuCounters) (known : KnownProcesses)

/-- What is reported of a key with its counters. -/
def entryReport (e : ProcessKey × CpuTotal) : Option CpuActivity :=
  if e.1.identity ticksPerSecond ∈ known.values then
    let previous := (p.previousCpu.get? e.1).getD e.2
    let runtimeNs := saturatingSub e.2.1 previous.1
    let switches := saturatingSub e.2.2 previous.2
    let cpus := cpusOf raw e.1
    if 0 < runtimeNs ∨ 0 < switches ∨ cpus ≠ [] ∨ e.1 ∈ p.previousRunning then
      some ⟨e.1.identity ticksPerSecond, runtimeNs, switches, .ofNat cpus.length, cpus.map .ofNat⟩
    else
      none
  else
    none

/-- What is reported of a key. -/
def keyReport (k : ProcessKey) : Option CpuActivity :=
  ((cumulativeTotals raw).get? k).bind fun total =>
    entryReport ticksPerSecond p raw known (k, total)

/-- The loop over the counters reports each key, and keeps its counters and whether it runs. -/
theorem foldl_cpuReport (es : List (ProcessKey × CpuTotal)) (hes : (es.map Prod.fst).Nodup)
    (s : CpuReport)
    (hrunning : ∀ e ∈ es, (s.running.get? e.1).getD [] = cpusOf raw e.1) :
    (es.foldl (CpuReport.add ticksPerSecond p known.values) s).result =
        s.result ++ es.filterMap (entryReport ticksPerSecond p raw known) ∧
      (es.foldl (CpuReport.add ticksPerSecond p known.values) s).nextPrevious =
        s.nextPrevious.setAll (es.filter fun e => e.1.identity ticksPerSecond ∈ known.values) ∧
      (es.foldl (CpuReport.add ticksPerSecond p known.values) s).nextRunning =
        s.nextRunning ++ (es.filter fun e =>
          e.1.identity ticksPerSecond ∈ known.values ∧ cpusOf raw e.1 ≠ []).map Prod.fst := by
  induction es generalizing s with
  | nil => exact ⟨(List.append_nil _).symm, rfl, (List.append_nil _).symm⟩
  | cons e es ih =>
    obtain ⟨hnew, hes⟩ := List.nodup_cons.mp hes
    rw [List.foldl_cons]
    by_cases hknown : e.1.identity ticksPerSecond ∈ known.values
    · have hcpus := hrunning e List.mem_cons_self
      have hadd : s.add ticksPerSecond p known.values e =
          { running := s.running.erase e.1
            nextRunning := if cpusOf raw e.1 ≠ [] then s.nextRunning ++ [e.1] else s.nextRunning
            result := s.result ++ (entryReport ticksPerSecond p raw known e).toList
            nextPrevious := s.nextPrevious.set e.1 e.2 } := by
        rw [CpuReport.add, if_neg (not_not.mpr hknown), hcpus, entryReport, if_pos hknown]
        dsimp only
        split
        · rfl
        · rw [Option.toList_none, List.append_nil]
      obtain ⟨hresult, hprevious, hnext⟩ := ih hes (s.add ticksPerSecond p known.values e) (by
        intro x hx
        have hne : x.1 ≠ e.1 := fun h => hnew (h ▸ List.mem_map_of_mem hx)
        rw [hadd]
        dsimp only
        rw [OrderedMap.get?_erase_ne _ hne]
        exact hrunning x (List.mem_cons_of_mem _ hx))
      rw [hadd] at hresult hprevious hnext ⊢
      refine ⟨?_, ?_, ?_⟩
      · rw [hresult, List.append_assoc]
        cases hreport : entryReport ticksPerSecond p raw known e with
        | none => rw [List.filterMap_cons_none hreport]; rfl
        | some a => rw [List.filterMap_cons_some hreport]; rfl
      · rw [hprevious, List.filter_cons_of_pos (by simpa using hknown)]
        rfl
      · rw [hnext]
        by_cases hrun : cpusOf raw e.1 = []
        · rw [List.filter_cons_of_neg (by simp [hrun]), if_neg (not_not.mpr hrun)]
        · rw [List.filter_cons_of_pos (by simp [hrun, hknown]), if_pos hrun, List.append_assoc]
          rfl
    · have hadd : s.add ticksPerSecond p known.values e = s := if_pos hknown
      have hreport : entryReport ticksPerSecond p raw known e = none := if_neg hknown
      rw [hadd, List.filterMap_cons_none hreport, List.filter_cons_of_neg (by simpa using hknown),
        List.filter_cons_of_neg (by simpa using fun h => absurd h hknown)]
      exact ih hes s fun x hx => hrunning x (List.mem_cons_of_mem _ hx)

theorem appears_of_cpusOf {raw : CpuCounters} {k : ProcessKey} (h : cpusOf raw k ≠ []) :
    Appears raw k := by
  obtain ⟨e, he⟩ := List.exists_mem_of_ne_nil _ (mt List.map_eq_nil_iff.mpr h)
  obtain ⟨hmem, hk⟩ := List.mem_filter.mp he
  exact .inr (List.mem_map.mpr ⟨e, hmem, of_decide_eq_true hk⟩)

/-- The loop over the counters of a batch. -/
theorem cpu_loop :
    (p.cpu ticksPerSecond raw known).1 =
        (cumulativeTotals raw).entries.filterMap (entryReport ticksPerSecond p raw known) ∧
      (p.cpu ticksPerSecond raw known).2.previousCpu =
        OrderedMap.ofList ((cumulativeTotals raw).entries.filter fun e =>
          e.1.identity ticksPerSecond ∈ known.values) ∧
      (p.cpu ticksPerSecond raw known).2.previousRunning =
        ((cumulativeTotals raw).entries.filter fun e =>
          e.1.identity ticksPerSecond ∈ known.values ∧ cpusOf raw e.1 ≠ []).map Prod.fst :=
  foldl_cpuReport ticksPerSecond p raw known (cumulativeTotals raw).entries
    (cumulativeTotals raw).nodup ⟨[], .empty, [], (currentSlots raw).running⟩
    fun e _ => running_currentSlots raw e.1

/-- A batch reports its keys, each once. -/
theorem cpu_result : (p.cpu ticksPerSecond raw known).1 =
    ((cumulativeTotals raw).entries.map Prod.fst).filterMap
      (keyReport ticksPerSecond p raw known) := by
  rw [(cpu_loop ticksPerSecond p raw known).1, List.filterMap_map]
  refine List.filterMap_congr fun e he => ?_
  rw [Function.comp_apply, keyReport, OrderedMap.get?_eq_some_iff.mpr he]
  rfl

/-- The counters of the known processes are kept for the next batch. -/
theorem previousCpu_cpu (k : ProcessKey) :
    (p.cpu ticksPerSecond raw known).2.previousCpu.get? k =
      if k.identity ticksPerSecond ∈ known.values then (cumulativeTotals raw).get? k
      else none := by
  have hnodup : (((cumulativeTotals raw).entries.filter fun e =>
      e.1.identity ticksPerSecond ∈ known.values).map Prod.fst).Nodup :=
    (cumulativeTotals raw).nodup.sublist (List.filter_sublist.map Prod.fst)
  rw [(cpu_loop ticksPerSecond p raw known).2.1]
  apply Option.ext
  intro total
  rw [OrderedMap.get?_eq_some_iff, OrderedMap.entries_ofList hnodup, List.mem_filter,
    ← OrderedMap.get?_eq_some_iff]
  split
  · next hknown => exact and_iff_left (decide_eq_true hknown)
  · next hknown =>
    refine iff_of_false (fun h => hknown (of_decide_eq_true h.2)) fun h => ?_
    exact Option.some_ne_none total h.symm

/-- The known processes on CPUs are kept for the next batch. -/
theorem mem_previousRunning_cpu (k : ProcessKey) :
    k ∈ (p.cpu ticksPerSecond raw known).2.previousRunning ↔
      k.identity ticksPerSecond ∈ known.values ∧ cpusOf raw k ≠ [] := by
  rw [(cpu_loop ticksPerSecond p raw known).2.2, List.mem_map]
  constructor
  · rintro ⟨e, he, rfl⟩
    exact of_decide_eq_true (List.mem_filter.mp he).2
  · intro h
    obtain ⟨total, htotal⟩ := Option.ne_none_iff_exists'.mp
      (mt (cumulativeTotals_eq_none_iff raw k).mp (not_not.mpr (appears_of_cpusOf h.2)))
    exact ⟨(k, total), List.mem_filter.mpr
      ⟨OrderedMap.get?_eq_some_iff.mp htotal, decide_eq_true h⟩, rfl⟩

/-- The CPUs of a report are those whose slots name the key; without a report there are none. -/
theorem cpus_keyReport {raw : CpuCounters} {known : KnownProcesses} {k : ProcessKey}
    (hknown : k.identity ticksPerSecond ∈ known.values) :
    (keyReport ticksPerSecond p raw known k).elim [] CpuActivity.cpus =
      (cpusOf raw k).map .ofNat := by
  rw [keyReport]
  cases htotal : (cumulativeTotals raw).get? k with
  | none =>
    have hnone : cpusOf raw k = [] := by
      by_contra hcpus
      exact (cumulativeTotals_eq_none_iff raw k).mp htotal (appears_of_cpusOf hcpus)
    rw [hnone]
    rfl
  | some total =>
    rw [Option.bind_some, entryReport, if_pos hknown]
    dsimp only
    split
    · rfl
    · next hquiet =>
      rw [not_or, not_or, not_or, not_not] at hquiet
      rw [hquiet.2.2.1]
      rfl

theorem identity_keyReport {k : ProcessKey} {a : CpuActivity}
    (h : keyReport ticksPerSecond p raw known k = some a) :
    a.processId = k.identity ticksPerSecond ∧ a.runningThreads = .ofNat a.cpus.length := by
  obtain ⟨total, -, hreport⟩ := Option.bind_eq_some_iff.mp h
  unfold entryReport at hreport
  split at hreport
  · dsimp only at hreport
    split at hreport
    · obtain rfl := Option.some_inj.mp hreport
      exact ⟨rfl, by rw [List.length_map]⟩
    · exact absurd hreport.symm (Option.some_ne_none a)
  · exact absurd hreport.symm (Option.some_ne_none a)

end Reports

/-! ## What is kept between batches -/

/-- Nothing is kept of a key. -/
def Fresh (p : ActivityProcessor) (k : ProcessKey) : Prop :=
  p.previousCpu.get? k = none ∧ k ∉ p.previousRunning

/-- What is kept of a key are its counters and whether it runs. -/
def Keeps (p : ActivityProcessor) (raw : CpuCounters) (k : ProcessKey) : Prop :=
  (∃ total, p.previousCpu.get? k = some total ∧ total.1.toNat = runtimeOf raw k ∧
    total.2.toNat = switchesOf raw k) ∧ (k ∈ p.previousRunning ↔ cpusOf raw k ≠ [])

section Kept

variable {ticksPerSecond : ℕ} {p : ActivityProcessor} {k : ProcessKey}

/-- After a batch its counters are kept. -/
theorem keeps_process (p : ActivityProcessor) {b : RawActivity × KnownProcesses}
    (hknown : k.identity ticksPerSecond ∈ b.2.values) (happears : Appears b.1.cpu k)
    (hfits : Fits b.1.cpu k) : Keeps (p.process ticksPerSecond b.1 b.2).2 b.1.cpu k := by
  have hprevious := previousCpu_cpu ticksPerSecond p b.1.cpu b.2 k
  have hrunning := mem_previousRunning_cpu ticksPerSecond p b.1.cpu b.2 k
  rw [if_pos hknown] at hprevious
  obtain ⟨total, htotal, hruntime, hswitches⟩ := get?_cumulativeTotals happears hfits
  refine ⟨⟨total, hprevious.trans htotal, hruntime, hswitches⟩, hrunning.trans ?_⟩
  exact and_iff_right hknown

/-- A key of which nothing is kept is reported only if it runs, and without any use. -/
theorem keyReport_of_fresh (hp : Fresh p k) {raw : CpuCounters} {known : KnownProcesses}
    (hknown : k.identity ticksPerSecond ∈ known.values) (happears : Appears raw k) :
    keyReport ticksPerSecond p raw known k =
      if cpusOf raw k ≠ [] then
        some ⟨k.identity ticksPerSecond, 0, 0, .ofNat (cpusOf raw k).length,
          (cpusOf raw k).map .ofNat⟩
      else
        none := by
  obtain ⟨total, htotal⟩ := Option.ne_none_iff_exists'.mp
    (mt (cumulativeTotals_eq_none_iff raw k).mp (not_not.mpr happears))
  have hzero (a : UInt64) : saturatingSub a a = 0 := by
    rw [saturatingSub, Nat.sub_self]
    rfl
  rw [keyReport, htotal, Option.bind_some, entryReport, if_pos hknown]
  dsimp only
  rw [hp.1, Option.getD_none, hzero, hzero]
  refine if_congr ?_ rfl rfl
  constructor
  · rintro (h | h | h | h)
    · exact absurd h (UInt64.lt_irrefl 0)
    · exact absurd h (UInt64.lt_irrefl 0)
    · exact h
    · exact absurd h hp.2
  · exact fun h => .inr (.inr (.inl h))

/-- A key whose counters are kept is reported with the differences, if it did something, runs, or
ran. -/
theorem keyReport_of_keeps {raw next : CpuCounters} (hp : Keeps p raw k) {known : KnownProcesses}
    (hknown : k.identity ticksPerSecond ∈ known.values) (happears : Appears next k)
    (hfits : Fits next k) : ∃ runtimeNs switches : UInt64,
      runtimeNs.toNat = runtimeOf next k - runtimeOf raw k ∧
      switches.toNat = switchesOf next k - switchesOf raw k ∧
      keyReport ticksPerSecond p next known k =
        if 0 < runtimeNs ∨ 0 < switches ∨ cpusOf next k ≠ [] ∨ cpusOf raw k ≠ [] then
          some ⟨k.identity ticksPerSecond, runtimeNs, switches, .ofNat (cpusOf next k).length,
            (cpusOf next k).map .ofNat⟩
        else
          none := by
  obtain ⟨⟨previous, hprevious, hruntime, hswitches⟩, hrunning⟩ := hp
  obtain ⟨total, htotal, hruntime', hswitches'⟩ := get?_cumulativeTotals happears hfits
  refine ⟨saturatingSub total.1 previous.1, saturatingSub total.2 previous.2, ?_, ?_, ?_⟩
  · rw [toNat_saturatingSub, hruntime', hruntime]
  · rw [toNat_saturatingSub, hswitches', hswitches]
  · rw [keyReport, htotal, Option.bind_some, entryReport, if_pos hknown]
    dsimp only
    rw [hprevious, Option.getD_some]
    refine if_congr ?_ rfl rfl
    rw [hrunning]

end Kept

/-! ## Runs -/

section Runs

variable (ticksPerSecond : ℕ)

/-- The processor after some batches. -/
def afterBatches (p : ActivityProcessor) (batches : List (RawActivity × KnownProcesses)) :
    ActivityProcessor :=
  batches.foldl (fun p b => (p.process ticksPerSecond b.1 b.2).2) p

/-- What the batch behind some batches reports of a key. -/
def reportAfter (p : ActivityProcessor) (before : List (RawActivity × KnownProcesses))
    (b : RawActivity × KnownProcesses) (k : ProcessKey) : Option CpuActivity :=
  keyReport ticksPerSecond (afterBatches ticksPerSecond p before) b.1.cpu b.2 k

/-- What the batches of a run report of a key, one after another. -/
def reports (k : ProcessKey) :
    ActivityProcessor → List (RawActivity × KnownProcesses) → List (Option CpuActivity)
  | _, [] => []
  | p, b :: batches =>
    keyReport ticksPerSecond p b.1.cpu b.2 k ::
      reports k (p.process ticksPerSecond b.1 b.2).2 batches

/-- The sum of what is reported. -/
def reported (f : CpuActivity → UInt64) (rs : List (Option CpuActivity)) : ℕ :=
  (rs.map fun r => r.elim 0 fun a => (f a).toNat).sum

/-- A key is of a known process and appears in a batch, with counters that fit. -/
def Counted (k : ProcessKey) (b : RawActivity × KnownProcesses) : Prop :=
  k.identity ticksPerSecond ∈ b.2.values ∧ Appears b.1.cpu k ∧ Fits b.1.cpu k

/-- The counters of a key do not fall from one batch to another. -/
def Grows (k : ProcessKey) (b c : RawActivity × KnownProcesses) : Prop :=
  runtimeOf b.1.cpu k ≤ runtimeOf c.1.cpu k ∧ switchesOf b.1.cpu k ≤ switchesOf c.1.cpu k

/-- What a run reports of a key. -/
structure Telescopes (p : ActivityProcessor) (k : ProcessKey)
    (first : RawActivity × KnownProcesses) (rest : List (RawActivity × KnownProcesses)) :
    Prop where
  /-- The runtimes sum to the last total minus the first. -/
  runtime : reported CpuActivity.runtimeNs (reports ticksPerSecond k p (first :: rest)) =
    runtimeOf ((first :: rest).getLast (List.cons_ne_nil _ _)).1.cpu k - runtimeOf first.1.cpu k
  /-- The switches sum to the last total minus the first. -/
  switches : reported CpuActivity.switches (reports ticksPerSecond k p (first :: rest)) =
    switchesOf ((first :: rest).getLast (List.cons_ne_nil _ _)).1.cpu k -
      switchesOf first.1.cpu k
  /-- What a batch reports are the reports of its keys, this one among them. -/
  output : ∀ before b after, first :: rest = before ++ b :: after → ∃ keys : List ProcessKey,
    keys.Nodup ∧ k ∈ keys ∧
      ((afterBatches ticksPerSecond p before).process ticksPerSecond b.1 b.2).1.cpu =
        keys.filterMap (reportAfter ticksPerSecond p before b)
  /-- The reports are of the key's process. -/
  identity : ∀ before b after, first :: rest = before ++ b :: after →
    ∀ a ∈ reportAfter ticksPerSecond p before b k, a.processId = k.identity ticksPerSecond ∧
      a.runningThreads = .ofNat a.cpus.length
  /-- A key is reported with its CPUs, and is reported if there are any. -/
  cpus : ∀ before b after, first :: rest = before ++ b :: after →
    (reportAfter ticksPerSecond p before b k).elim [] CpuActivity.cpus =
      (cpusOf b.1.cpu k).map .ofNat
  /-- A key that does not run is not reported in the first batch. -/
  start : cpusOf first.1.cpu k = [] → reportAfter ticksPerSecond p [] first k = none
  /-- A key that ran in the batch before is reported. -/
  stopped : ∀ before b c after, first :: rest = before ++ b :: c :: after →
    cpusOf b.1.cpu k ≠ [] → (reportAfter ticksPerSecond p (before ++ [b]) c k).isSome
  /-- A key that did nothing, does not run and did not just stop is not reported. -/
  quiet : ∀ before b c after, first :: rest = before ++ b :: c :: after →
    runtimeOf c.1.cpu k = runtimeOf b.1.cpu k → switchesOf c.1.cpu k = switchesOf b.1.cpu k →
      cpusOf c.1.cpu k = [] → cpusOf b.1.cpu k = [] →
        reportAfter ticksPerSecond p (before ++ [b]) c k = none

theorem keeps_afterBatches (p : ActivityProcessor) {k : ProcessKey}
    (before : List (RawActivity × KnownProcesses)) {b : RawActivity × KnownProcesses}
    (hb : Counted ticksPerSecond k b) :
    Keeps (afterBatches ticksPerSecond p (before ++ [b])) b.1.cpu k := by
  rw [afterBatches, List.foldl_append]
  exact keeps_process _ hb.1 hb.2.1 hb.2.2

/-- What a batch reports of a key whose counters are kept, whether it is reported or not. -/
theorem difference_of_keeps {p : ActivityProcessor} {k : ProcessKey} {raw : CpuCounters}
    (hp : Keeps p raw k) {b : RawActivity × KnownProcesses} (hb : Counted ticksPerSecond k b) :
    ((keyReport ticksPerSecond p b.1.cpu b.2 k).elim 0 fun a => a.runtimeNs.toNat) =
        runtimeOf b.1.cpu k - runtimeOf raw k ∧
      ((keyReport ticksPerSecond p b.1.cpu b.2 k).elim 0 fun a => a.switches.toNat) =
        switchesOf b.1.cpu k - switchesOf raw k := by
  obtain ⟨runtimeNs, switches, hruntime, hswitches, hreport⟩ :=
    keyReport_of_keeps hp hb.1 hb.2.1 hb.2.2
  rw [hreport, ← hruntime, ← hswitches]
  split
  · exact ⟨rfl, rfl⟩
  · next hquiet =>
    rw [not_or, not_or] at hquiet
    have hzero (n : UInt64) (hn : ¬ 0 < n) : n.toNat = 0 :=
      Nat.eq_zero_of_not_pos fun h => hn (UInt64.lt_iff_toNat_lt.mpr h)
    exact ⟨(hzero _ hquiet.1).symm, (hzero _ hquiet.2.1).symm⟩

/-- The differences behind a batch sum to the last counters minus its own. -/
theorem reported_of_keeps {k : ProcessKey} (b : RawActivity × KnownProcesses)
    (rest : List (RawActivity × KnownProcesses)) (p : ActivityProcessor)
    (hp : Keeps p b.1.cpu k) (hcounted : ∀ c ∈ rest, Counted ticksPerSecond k c)
    (hgrows : List.IsChain (Grows k) (b :: rest)) :
    reported CpuActivity.runtimeNs (reports ticksPerSecond k p rest) + runtimeOf b.1.cpu k =
        runtimeOf ((b :: rest).getLast (List.cons_ne_nil _ _)).1.cpu k ∧
      reported CpuActivity.switches (reports ticksPerSecond k p rest) + switchesOf b.1.cpu k =
        switchesOf ((b :: rest).getLast (List.cons_ne_nil _ _)).1.cpu k := by
  induction rest generalizing b p with
  | nil => exact ⟨Nat.zero_add _, Nat.zero_add _⟩
  | cons c rest ih =>
    have hc := hcounted c List.mem_cons_self
    obtain ⟨hgrow, hgrows⟩ := List.isChain_cons_cons.mp hgrows
    obtain ⟨hruntime, hswitches⟩ := ih c (p.process ticksPerSecond c.1 c.2).2
      (keeps_process p hc.1 hc.2.1 hc.2.2) (fun d hd => hcounted d (List.mem_cons_of_mem _ hd))
      hgrows
    obtain ⟨hfirst, hfirst'⟩ := difference_of_keeps ticksPerSecond hp hc
    rw [List.getLast_cons (List.cons_ne_nil _ _), ← hruntime, ← hswitches, reports]
    unfold reported
    rw [List.map_cons, List.sum_cons, List.map_cons, List.sum_cons, hfirst, hfirst']
    obtain ⟨hle, hle'⟩ := hgrow
    constructor <;> omega

/-- Over every run of batches the reports of a key of a known process that appears in all of them,
with counters that fit and do not fall, telescope. -/
theorem cpu_telescopes {p : ActivityProcessor} {k : ProcessKey} (hp : Fresh p k)
    {first : RawActivity × KnownProcesses} {rest : List (RawActivity × KnownProcesses)}
    (hcounted : ∀ b ∈ first :: rest, Counted ticksPerSecond k b)
    (hgrows : List.IsChain (Grows k) (first :: rest)) :
    Telescopes ticksPerSecond p k first rest := by
  have hfirst := hcounted first List.mem_cons_self
  have hreport := keyReport_of_fresh hp hfirst.1 hfirst.2.1
  obtain ⟨hruntime, hswitches⟩ := reported_of_keeps ticksPerSecond first rest
    (p.process ticksPerSecond first.1 first.2).2 (keeps_process p hfirst.1 hfirst.2.1 hfirst.2.2)
    (fun c hc => hcounted c (List.mem_cons_of_mem _ hc)) hgrows
  have hmem {before after} {b : RawActivity × KnownProcesses}
      (h : first :: rest = before ++ b :: after) : Counted ticksPerSecond k b :=
    hcounted b (h ▸ List.mem_append_right _ List.mem_cons_self)
  have hnext {before after} {b c : RawActivity × KnownProcesses}
      (h : first :: rest = before ++ b :: c :: after) :
      Counted ticksPerSecond k b ∧ Counted ticksPerSecond k c := by
    have hc : first :: rest = (before ++ [b]) ++ c :: after := by
      rw [h, List.append_assoc]
      rfl
    exact ⟨hmem h, hmem hc⟩
  refine ⟨?_, ?_, ?_, ?_, ?_, ?_, ?_, ?_⟩
  · rw [← hruntime, reports, reported, List.map_cons, List.sum_cons, hreport]
    split <;> exact (Nat.zero_add _).trans (Nat.add_sub_cancel _ _).symm
  · rw [← hswitches, reports, reported, List.map_cons, List.sum_cons, hreport]
    split <;> exact (Nat.zero_add _).trans (Nat.add_sub_cancel _ _).symm
  · intro before b after h
    have hmemKey : k ∈ (cumulativeTotals b.1.cpu).entries.map Prod.fst := by
      refine not_not.mp fun hnone => ?_
      exact (cumulativeTotals_eq_none_iff b.1.cpu k).mp
        (OrderedMap.get?_eq_none_iff.mpr hnone) (hmem h).2.1
    exact ⟨_, (cumulativeTotals b.1.cpu).nodup, hmemKey, cpu_result ticksPerSecond _ b.1.cpu b.2⟩
  · intro before b after h a ha
    exact identity_keyReport ticksPerSecond _ b.1.cpu b.2 ha
  · intro before b after h
    exact cpus_keyReport ticksPerSecond _ (hmem h).1
  · intro hcpus
    have hstart : reportAfter ticksPerSecond p [] first k = _ := hreport
    rw [hstart, if_neg (not_not.mpr hcpus)]
  · intro before b c after h hran
    obtain ⟨hb, hc⟩ := hnext h
    obtain ⟨runtimeNs, switches, -, -, hreport⟩ := keyReport_of_keeps
      (keeps_afterBatches ticksPerSecond p before hb) hc.1 hc.2.1 hc.2.2
    rw [reportAfter, hreport, if_pos (.inr (.inr (.inr hran)))]
    rfl
  · intro before b c after h hruntime hswitches hcpus hran
    obtain ⟨hb, hc⟩ := hnext h
    obtain ⟨runtimeNs, switches, hdiff, hdiff', hreport⟩ := keyReport_of_keeps
      (keeps_afterBatches ticksPerSecond p before hb) hc.1 hc.2.1 hc.2.2
    rw [hruntime, Nat.sub_self] at hdiff
    rw [hswitches, Nat.sub_self] at hdiff'
    rw [reportAfter, hreport, if_neg]
    rintro (hpos | hpos | hruns | hruns)
    · exact absurd (UInt64.lt_iff_toNat_lt.mp hpos) (hdiff ▸ Nat.lt_irrefl 0)
    · exact absurd (UInt64.lt_iff_toNat_lt.mp hpos) (hdiff' ▸ Nat.lt_irrefl 0)
    · exact hruns hcpus
    · exact hruns hran

end Runs

/-! ### A slot that is newer than its batch -/

/-- The CPUs whose slot names a key, also those that do not count. -/
def namingCpus (raw : CpuCounters) (k : ProcessKey) : List ℕ :=
  (raw.current.zipIdx.filter fun slot => Ipc.processKey slot.1 = some k).map Prod.snd

/-- The bytes of the key of a process. -/
def workerKey : List UInt8 := leBytes 8 1000000000 ++ leBytes 4 42 ++ leBytes 4 0

/-- A slot that the process is switched in to. -/
def workerSlot (since : ℕ) : List UInt8 := workerKey ++ leBytes 8 since ++ leBytes 8 0

/-- A batch at a time, with the slot of the first CPU and the total of the process. -/
def workerBatch (now : UInt64) (current : List (List UInt8)) (runtime switches : UInt64) :
    RawActivity × KnownProcesses :=
  (⟨[], [], [], ⟨now, current, [(workerKey, [⟨[runtime, switches], rfl⟩])]⟩⟩,
    .ofList [(42, ⟨42, 100⟩)])

theorem cpu_telescopes_worker :
    Telescopes 100 .default ⟨1000000000, 42⟩ (workerBatch 10 [workerSlot 8] 100 2)
      [workerBatch 20 [] 150 3] := by
  refine cpu_telescopes 100 ⟨rfl, List.not_mem_nil⟩ ?_ ?_
  · rintro b (_ | ⟨_, _ | ⟨_, ⟨⟩⟩⟩)
    · exact ⟨by decide +kernel, .inl (by decide +kernel), by decide +kernel, by decide +kernel⟩
    · exact ⟨by decide +kernel, .inl (by decide +kernel), by decide +kernel, by decide +kernel⟩
  · refine .cons_cons ⟨by decide +kernel, by decide +kernel⟩ (.singleton _)

/-- The time of a batch is taken before its slots are read.  A slot of a thread that was switched in
in between names its process, whose report does not have its CPU. -/
theorem cpus_of_newerSlot :
    (∀ b ∈ [workerBatch 10 [] 100 2, workerBatch 20 [workerSlot 21] 150 3],
        Counted 100 ⟨1000000000, 42⟩ b) ∧
      Grows ⟨1000000000, 42⟩ (workerBatch 10 [] 100 2) (workerBatch 20 [workerSlot 21] 150 3) ∧
      namingCpus (workerBatch 20 [workerSlot 21] 150 3).1.cpu ⟨1000000000, 42⟩ = [0] ∧
      (reportAfter 100 .default [workerBatch 10 [] 100 2] (workerBatch 20 [workerSlot 21] 150 3)
        ⟨1000000000, 42⟩).map CpuActivity.cpus = some [] := by
  refine ⟨?_, ⟨by decide +kernel, by decide +kernel⟩, by decide +kernel, by decide +kernel⟩
  rintro b (_ | ⟨_, _ | ⟨_, ⟨⟩⟩⟩)
  · exact ⟨by decide +kernel, .inl (by decide +kernel), by decide +kernel, by decide +kernel⟩
  · exact ⟨by decide +kernel, .inl (by decide +kernel), by decide +kernel, by decide +kernel⟩

end Procinsh
