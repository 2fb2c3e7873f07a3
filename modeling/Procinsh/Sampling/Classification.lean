import Procinsh.Sampling.Records

/-!
# Samples of context switches

A sample is taken for that of a context switch only if it is the last one before a record that the same
thread was switched out, with nothing in between that makes it doubtful.  What the records of a drain
do to the pending sample and to the number of lost ones does not depend on the samples found before, so
that it does not matter how the records are split into drains.
-/

namespace Procinsh.Sampling

open Ipc

/-! ## Records -/

namespace PerfRecord

/-- A record that leaves a pending sample as it is. -/
def Neutral (r : PerfRecord) : Prop :=
  r.kind ≠ perfRecordSample ∧ r.kind ≠ perfRecordSwitch ∧ r.kind ≠ perfRecordLost ∧
    r.kind ≠ perfRecordThrottle ∧ r.kind ≠ perfRecordUnthrottle

/-- The payload is what the kind of the record says. -/
structure WellFormed [Target] (r : PerfRecord) : Prop where
  sample : r.kind = perfRecordSample → ∃ s, parsePerfSample r.payload = .ok s
  switch : r.kind = perfRecordSwitch → ∃ ids, readSwitch r.payload = .ok ids
  lost : r.kind = perfRecordLost → ∃ n, readLost r.payload = .ok n

/-- What a record of a context switch event does: the pending sample and the lost ones before it, and
these behind it with the sample that is found. -/
inductive Handled [Target] (r : PerfRecord) (pending : Option RawSample) (lost : UInt64) :
    Option RawSample → UInt64 → Option RawSample → Prop
  | sample (s : Option RawSample) (hkind : r.kind = perfRecordSample)
      (hs : parsePerfSample r.payload = .ok s) : Handled r pending lost s lost none
  | switch (tid : Int32) (time : UInt64) (cpu : UInt32) (hkind : r.kind = perfRecordSwitch)
      (hids : readSwitch r.payload = .ok (tid, time, cpu)) :
      Handled r pending lost none lost (classify pending r.misc tid time cpu)
  | throttle (hkind : r.kind = perfRecordThrottle ∨ r.kind = perfRecordUnthrottle) :
      Handled r pending lost none lost none
  | lost (n : UInt64) (hkind : r.kind = perfRecordLost) (hn : readLost r.payload = .ok n) :
      Handled r pending lost none (saturatingAdd lost n) none
  | other (hneutral : r.Neutral) : Handled r pending lost pending lost none

/-- A well-formed record is handled. -/
theorem WellFormed.exists_handled [Target] {r : PerfRecord} (h : r.WellFormed)
    (pending : Option RawSample) (lost : UInt64) : ∃ pending' lost' found,
      r.Handled pending lost pending' lost' found ∧
      ∀ latest, handleRecord true r.kind r.misc r.payload ⟨pending, lost, latest⟩ =
        .ok ⟨pending', lost', found.or latest⟩ := by
  by_cases hsample : r.kind = perfRecordSample
  · obtain ⟨s, hs⟩ := h.sample hsample
    refine ⟨s, lost, none, .sample s hsample hs, fun latest => ?_⟩
    rw [handleRecord, if_pos hsample, hs]
    rfl
  · by_cases hswitch : r.kind = perfRecordSwitch
    · obtain ⟨⟨tid, time, cpu⟩, hids⟩ := h.switch hswitch
      refine ⟨none, lost, _, .switch tid time cpu hswitch hids, fun latest => ?_⟩
      rw [handleRecord, if_neg hsample, if_pos ⟨hswitch, rfl⟩, hids]
      rfl
    · by_cases hthrottle : r.kind = perfRecordThrottle ∨ r.kind = perfRecordUnthrottle
      · refine ⟨none, lost, none, .throttle hthrottle, fun latest => ?_⟩
        rw [handleRecord, if_neg hsample, if_neg (fun hand => hswitch hand.1),
          if_pos ⟨hthrottle, rfl⟩]
        rfl
      · rw [not_or] at hthrottle
        by_cases hlost : r.kind = perfRecordLost
        · obtain ⟨n, hn⟩ := h.lost hlost
          refine ⟨none, saturatingAdd lost n, none, .lost n hlost hn, fun latest => ?_⟩
          rw [handleRecord, if_neg hsample, if_neg (fun hand => hswitch hand.1),
            if_neg (fun hand => hand.1.elim hthrottle.1 hthrottle.2), if_pos hlost, hn]
          rfl
        · refine ⟨pending, lost, none,
            .other ⟨hsample, hswitch, hlost, hthrottle.1, hthrottle.2⟩, fun latest => ?_⟩
          rw [handleRecord, if_neg hsample, if_neg (fun hand => hswitch hand.1),
            if_neg (fun hand => hand.1.elim hthrottle.1 hthrottle.2), if_neg hlost]
          rfl

/-! ## The last sample -/

/-- The sample of the last record that has one, without a record behind it that makes it doubtful. -/
def IsLastSample [Target] (records : List PerfRecord) (s : RawSample) : Prop :=
  ∃ before r mid, records = before ++ r :: mid ∧ r.kind = perfRecordSample ∧
    parsePerfSample r.payload = .ok (some s) ∧ ∀ m ∈ mid, m.Neutral

/-- The last sample before a record that its thread was switched out on its processor, not earlier
than it. -/
def IsSwitched [Target] (records : List PerfRecord) (s : RawSample) : Prop :=
  ∃ before w after s₀ tid time cpu, records = before ++ w :: after ∧ IsLastSample before s₀ ∧
    w.kind = perfRecordSwitch ∧ w.misc &&& switchOut ≠ 0 ∧
    readSwitch w.payload = .ok (tid, time, cpu) ∧ s₀.tid = tid ∧ s₀.timeNs ≤ time ∧
    s₀.cpu = some cpu ∧
    s = { s₀ with source := .contextSwitch (w.misc &&& switchOutPreempt ≠ 0) }

section Sound

variable [Target] {r : PerfRecord} {done records : List PerfRecord} {s : RawSample}

theorem IsLastSample.concat (h : IsLastSample done s) (hr : r.Neutral) :
    IsLastSample (done ++ [r]) s := by
  obtain ⟨before, r', mid, rfl, hkind, hs, hmid⟩ := h
  refine ⟨before, r', mid ++ [r], ?_, hkind, hs, ?_⟩
  · rw [List.append_assoc, List.cons_append]
  · intro m hm
    rcases List.mem_append.mp hm with hm | hm
    · exact hmid m hm
    · exact List.mem_singleton.mp hm ▸ hr

theorem IsSwitched.append (h : IsSwitched done s) : IsSwitched (done ++ records) s := by
  obtain ⟨before, w, after, s₀, tid, time, cpu, rfl, hrest⟩ := h
  refine ⟨before, w, after ++ records, s₀, tid, time, cpu, ?_, hrest⟩
  rw [List.append_assoc, List.cons_append]

/-- The pending sample is the last one, and one that is found has been switched out. -/
theorem Handled.sound {pending pending' found : Option RawSample} {lost lost' : UInt64}
    (h : r.Handled pending lost pending' lost' found)
    (hpending : ∀ s, pending = some s → IsLastSample done s) :
    (∀ s, pending' = some s → IsLastSample (done ++ [r]) s) ∧
      ∀ s, found = some s → IsSwitched (done ++ [r]) s := by
  cases h with
  | sample _ hkind hs =>
    refine ⟨fun s hsome => ⟨done, r, [], rfl, hkind, hsome ▸ hs, ?_⟩, fun s hs => absurd hs (Option.some_ne_none s).symm⟩
    exact fun m hm => absurd hm List.not_mem_nil
  | switch tid time cpu hkind hids =>
    refine ⟨fun s hs => absurd hs (Option.some_ne_none s).symm, fun s hs => ?_⟩
    obtain ⟨s₀, hs₀, hs⟩ := Option.bind_eq_some_iff.mp hs
    split at hs
    · next hswitched =>
      obtain ⟨hout, htid, htime, hcpu⟩ := hswitched
      exact ⟨done, r, [], s₀, tid, time, cpu, rfl, hpending s₀ hs₀, hkind, hout, hids, htid, htime,
        hcpu, (Option.some.inj hs).symm⟩
    · cases hs
  | throttle => exact ⟨fun s hs => absurd hs (Option.some_ne_none s).symm, fun s hs => absurd hs (Option.some_ne_none s).symm⟩
  | lost => exact ⟨fun s hs => absurd hs (Option.some_ne_none s).symm, fun s hs => absurd hs (Option.some_ne_none s).symm⟩
  | other hneutral =>
    exact ⟨fun s hs => (hpending s hs).concat hneutral, fun s hs => absurd hs (Option.some_ne_none s).symm⟩

/-! ## Sequences of records -/

/-- What records do, whatever sample has been found before. -/
def LeadsTo (records : List PerfRecord) (pending : Option RawSample) (lost : UInt64)
    (pending' : Option RawSample) (lost' : UInt64) (found : Option RawSample) : Prop :=
  ∀ latest, handleAll true records ⟨pending, lost, latest⟩ = .ok ⟨pending', lost', found.or latest⟩

theorem LeadsTo.append {x y : List PerfRecord} {p q t : Option RawSample} {l m n : UInt64}
    {a b : Option RawSample} (hx : LeadsTo x p l q m a) (hy : LeadsTo y q m t n b) :
    LeadsTo (x ++ y) p l t n (b.or a) := by
  intro latest
  have hrun := hx latest
  unfold handleAll at hrun
  rw [handleAll, List.foldlM_append, hrun, Option.or_assoc]
  exact hy (a.or latest)

/-- Well-formed records have an outcome. -/
theorem exists_leadsTo (hwell : ∀ r ∈ records, r.WellFormed) {pending : Option RawSample}
    (hpending : ∀ s, pending = some s → IsLastSample done s) (lost : UInt64) :
    ∃ pending' lost' found, LeadsTo records pending lost pending' lost' found ∧
      (∀ s, pending' = some s → IsLastSample (done ++ records) s) ∧
      ∀ s, found = some s → IsSwitched (done ++ records) s := by
  induction records generalizing done pending lost with
  | nil =>
    rw [List.append_nil]
    exact ⟨pending, lost, none, fun latest => rfl, hpending, fun s hs => absurd hs (Option.some_ne_none s).symm⟩
  | cons r records ih =>
    obtain ⟨hr, hrecords⟩ := List.forall_mem_cons.mp hwell
    obtain ⟨p, l, a, hhandled, hone⟩ := hr.exists_handled pending lost
    obtain ⟨hp, ha⟩ := hhandled.sound hpending
    obtain ⟨pending', lost', b, hall, hpending', hb⟩ := ih hrecords hp l
    rw [List.append_assoc] at hpending' hb
    refine ⟨pending', lost', b.or a, fun latest => ?_, hpending', fun s hs => ?_⟩
    · rw [handleAll_cons, hone, Option.or_assoc]
      exact hall (a.or latest)
    · rcases Option.or_eq_some_iff.mp hs with hs | ⟨-, hs⟩
      · exact hb s hs
      · have hswitched : IsSwitched ((done ++ [r]) ++ records) s := (ha s hs).append
        rwa [List.append_assoc] at hswitched

end Sound

end PerfRecord

/-! ## Drains -/

namespace PerfEventReader

open PerfRecord

/-- Drains of what the ring has before each position. -/
def drains [Target] (reader : PerfEventReader) :
    List ((ℕ → UInt8) × UInt64) → PerfEventReader × List (Except String (Option RawSample))
  | [] => (reader, [])
  | (ring, head) :: calls =>
    let (reader, result) := reader.drain ring head
    let (reader, results) := reader.drains calls
    (reader, result :: results)

/-- The last sample that is returned. -/
def lastSample : List (Except String (Option RawSample)) → Option RawSample
  | [] => none
  | .error _ :: results => lastSample results
  | .ok sample :: results => (lastSample results).or sample

/-- The ring has the records of each drain where the reader is, and nothing behind them. -/
inductive Delivers (capacity : UInt64) :
    UInt64 → List ((ℕ → UInt8) × UInt64) → List (List PerfRecord) → Prop
  | nil (tail : UInt64) : Delivers capacity tail [] []
  | cons (tail : UInt64) (ring : ℕ → UInt8) (records : List PerfRecord)
      (calls : List ((ℕ → UInt8) × UInt64)) (chunks : List (List PerfRecord))
      (hholds : Holds capacity ring tail (allBytes records))
      (hcapacity : (allBytes records).length ≤ capacity.toNat)
      (hrest : Delivers capacity (tail + .ofNat (allBytes records).length) calls chunks) :
      Delivers capacity tail ((ring, tail + .ofNat (allBytes records).length) :: calls)
        (records :: chunks)

section Drains

variable [Target] {reader : PerfEventReader}

/-- A drain of well-formed records. -/
theorem drain_of_leadsTo {ring : ℕ → UInt8} {records : List PerfRecord}
    {pending' found : Option RawSample} {lost' : UInt64}
    (hswitch : reader.contextSwitch = true)
    (hholds : Holds reader.capacity ring reader.tail (allBytes records))
    (hcapacity : (allBytes records).length ≤ reader.capacity.toNat)
    (h : LeadsTo records reader.pending reader.lost pending' lost' found) :
    reader.drain ring (reader.tail + .ofNat (allBytes records).length) =
      ({ reader with
        tail := reader.tail + .ofNat (allBytes records).length
        lost := lost'
        pending := pending' }, .ok found) := by
  have hlength : (UInt64.ofNat (allBytes records).length).toNat = (allBytes records).length :=
    UInt64.toNat_ofNat_of_lt' (Nat.lt_of_le_of_lt hcapacity reader.capacity.toNat_lt)
  have hsub : reader.tail + .ofNat (allBytes records).length - reader.tail =
      .ofNat (allBytes records).length := add_sub_cancel_left _ _
  have hall := h none
  rw [← hswitch, Option.or_none] at hall
  have hdrain : reader.drainRecords ring (reader.tail + .ofNat (allBytes records).length)
      reader.tail ⟨reader.pending, reader.lost, none⟩ = _ :=
    drainRecords_of_holds hholds hcapacity (by rw [hsub, hlength]) hall
  have hle : UInt64.ofNat (allBytes records).length ≤ reader.capacity := by
    rw [UInt64.le_iff_toNat_le, hlength]
    exact hcapacity
  unfold drain
  dsimp only
  rw [hsub, if_pos hle, hdrain]

/-- Drains of well-formed records have the outcome of all of them. -/
theorem Delivers.drains {calls : List ((ℕ → UInt8) × UInt64)} {chunks : List (List PerfRecord)}
    (h : Delivers reader.capacity reader.tail calls chunks)
    (hswitch : reader.contextSwitch = true) (hwell : ∀ records ∈ chunks, ∀ r ∈ records, r.WellFormed)
    {done : List PerfRecord} (hpending : ∀ s, reader.pending = some s → IsLastSample done s) :
    LeadsTo chunks.flatten reader.pending reader.lost (reader.drains calls).1.pending
        (reader.drains calls).1.lost (lastSample (reader.drains calls).2) ∧
      ∀ result ∈ (reader.drains calls).2, ∃ sample, result = .ok sample ∧
        ∀ s, sample = some s → IsSwitched (done ++ chunks.flatten) s := by
  generalize hcapacity : reader.capacity = capacity at h
  generalize htail : reader.tail = tail at h
  induction h generalizing reader done with
  | nil tail =>
    exact ⟨fun latest => rfl, fun result hresult => absurd hresult List.not_mem_nil⟩
  | cons tail ring records calls chunks hholds hfits hrest ih =>
    subst hcapacity htail
    obtain ⟨hrecords, hchunks⟩ := List.forall_mem_cons.mp hwell
    obtain ⟨p, l, a, hone, hp, ha⟩ := exists_leadsTo hrecords hpending reader.lost
    have hdrain := drain_of_leadsTo hswitch hholds hfits hone
    let next : PerfEventReader := { reader with
      tail := reader.tail + .ofNat (allBytes records).length
      lost := l
      pending := p }
    have hnext : next.contextSwitch = true := hswitch
    obtain ⟨hall, hresults⟩ := ih hnext hchunks hp rfl rfl
    unfold PerfEventReader.drains
    rw [hdrain]
    dsimp only
    rw [List.flatten_cons]
    refine ⟨hone.append hall, List.forall_mem_cons.mpr ⟨⟨a, rfl, fun s hs => ?_⟩, ?_⟩⟩
    · rw [← List.append_assoc]
      exact (ha s hs).append
    · intro result hresult
      rw [← List.append_assoc]
      exact hresults result hresult

/-- For records of a context switch event, split into drains in any way and placed in the ring from any
position on, a sample is returned only if it has been switched out, and the last sample, the pending one
and the number of lost ones are those of a single drain; for any contents of the ring, a drain ends with
the position at the head, and a failed one counts one more lost record and keeps no sample. -/
theorem drains_contextSwitch {calls : List ((ℕ → UInt8) × UInt64)}
    {chunks : List (List PerfRecord)} (hswitch : reader.contextSwitch = true)
    (hpending : reader.pending = none)
    (hdelivers : Delivers reader.capacity reader.tail calls chunks)
    (hwell : ∀ records ∈ chunks, ∀ r ∈ records, r.WellFormed) :
    (∀ result ∈ (reader.drains calls).2, ∃ sample, result = .ok sample ∧
      ∀ s, sample = some s → IsSwitched chunks.flatten s) ∧
    (∀ (single : PerfEventReader) (ring : ℕ → UInt8) (head : UInt64),
      single.contextSwitch = true → single.pending = none → single.lost = reader.lost →
      Delivers single.capacity single.tail [(ring, head)] [chunks.flatten] →
        (single.drain ring head).2 = .ok (lastSample (reader.drains calls).2) ∧
        (single.drain ring head).1.pending = (reader.drains calls).1.pending ∧
        (single.drain ring head).1.lost = (reader.drains calls).1.lost) ∧
    ∀ (other : PerfEventReader) (ring : ℕ → UInt8) (head : UInt64),
      (other.drain ring head).1.tail = head ∧
      ∀ e, (other.drain ring head).2 = .error e → (other.drain ring head).1.pending = none ∧
        ∃ records progress, Holds other.capacity ring other.tail (allBytes records) ∧
          handleAll other.contextSwitch records ⟨other.pending, other.lost, none⟩ = .ok progress ∧
          (other.drain ring head).1.lost = saturatingAdd progress.lost 1 := by
  have hempty : ∀ s, reader.pending = some s → IsLastSample [] s := by
    intro s hs
    rw [hpending] at hs
    cases hs
  obtain ⟨hall, hresults⟩ := hdelivers.drains hswitch hwell hempty
  refine ⟨hresults, ?_, ?_⟩
  · intro single ring head hsingle hnone hlost hone
    cases hone with
    | cons _ _ _ _ _ hholds hfits _ =>
      rw [hpending, ← hnone, ← hlost] at hall
      have hdrain := drain_of_leadsTo hsingle hholds hfits hall
      rw [hdrain]
      exact ⟨rfl, rfl, rfl⟩
  · intro other ring head
    obtain ⟨records, hholds, hrun, hhead⟩ := drainRecords_spec other ring head other.tail
      ⟨other.pending, other.lost, none⟩
    unfold drain
    dsimp only
    by_cases hfits : head - other.tail ≤ other.capacity
    · rw [if_pos hfits]
      generalize other.drainRecords ring head other.tail ⟨other.pending, other.lost, none⟩ = result
        at hrun hhead
      obtain ⟨tail, progress, error⟩ := result
      cases error with
      | none => exact ⟨hhead rfl, fun e he => by cases he⟩
      | some e' => exact ⟨rfl, fun e he => ⟨rfl, records, progress, hholds, hrun, rfl⟩⟩
    · rw [if_neg hfits]
      exact ⟨rfl, fun e he => ⟨rfl, [], _, rfl, rfl, rfl⟩⟩

end Drains

/-! ## A sample and a switch in two drains -/

/-- A payload of 64-bit numbers. -/
def numbers (values : List ℕ) : List UInt8 := values.flatMap (leBytes 8)

/-- A sample of thread 42 on processor 7, without a stack. -/
def sampleRecord : PerfRecord where
  kind := perfRecordSample
  misc := 0
  payload := numbers ([42 * 2 ^ 32 + 42, 100, 7, 2] ++ List.replicate 18 1 ++ [0])
  size_lt := by decide +kernel

/-- The thread is switched out. -/
def switchRecord : PerfRecord where
  kind := perfRecordSwitch
  misc := switchOut
  payload := numbers [42 * 2 ^ 32 + 42, 101, 7]
  size_lt := by decide +kernel

/-- A reader near the end of its ring. -/
def wrappingReader : PerfEventReader where
  capacity := 4096
  capacity_pos := by decide
  contextSwitch := true
  tail := 4090
  lost := 0
  pending := none

/-- A ring with the bytes of a record at a position. -/
def ringWith (position : ℕ) (r : PerfRecord) (i : ℕ) : UInt8 :=
  r.bytes.getD ((i + (4096 - position % 4096)) % 4096) 0

/-- The position behind the sample. -/
def middle : UInt64 := 4090 + .ofNat (allBytes [sampleRecord]).length

/-- The sample wraps around. -/
def twoCalls : List ((ℕ → UInt8) × UInt64) :=
  [(ringWith 4090 sampleRecord, middle),
    (ringWith 4282 switchRecord, middle + .ofNat (allBytes [switchRecord]).length)]

theorem delivers_twoCalls : Delivers 4096 4090 twoCalls [[sampleRecord], [switchRecord]] := by
  refine .cons 4090 (ringWith 4090 sampleRecord) [sampleRecord] _ _ ?_ ?_
    (.cons middle (ringWith 4282 switchRecord) [switchRecord] _ _ ?_ ?_ (.nil _))
  · unfold Holds
    decide +kernel
  · decide +kernel
  · unfold Holds
    decide +kernel
  · decide +kernel

/-- An x86-64 machine. -/
@[reducible] def x86 : Target := ⟨false⟩

theorem wellFormed_twoCalls :
    ∀ records ∈ [[sampleRecord], [switchRecord]], ∀ r ∈ records, @WellFormed x86 r := by
  let _ := x86
  have hsample : (@parsePerfSample x86 sampleRecord.payload).isOk = true := by decide +kernel
  have hswitch : readSwitch switchRecord.payload = .ok (42, 101, 7) := by decide +kernel
  refine List.forall_mem_cons.mpr ⟨?_, List.forall_mem_singleton.mpr ?_⟩
  · refine List.forall_mem_singleton.mpr ⟨fun _ => ?_, fun hkind => ?_, fun hkind => ?_⟩
    · cases hparse : @parsePerfSample x86 sampleRecord.payload with
      | error e =>
        rw [hparse] at hsample
        cases hsample
      | ok s => exact ⟨s, rfl⟩
    · exact absurd hkind (by decide)
    · exact absurd hkind (by decide)
  · refine List.forall_mem_singleton.mpr ⟨fun hkind => ?_, fun _ => ⟨_, hswitch⟩, fun hkind => ?_⟩
    · exact absurd hkind (by decide)
    · exact absurd hkind (by decide)

theorem drains_contextSwitch_twoCalls :
    letI := x86
    (∀ result ∈ (wrappingReader.drains twoCalls).2, ∃ sample, result = .ok sample ∧
      ∀ s, sample = some s → IsSwitched [[sampleRecord], [switchRecord]].flatten s) ∧
    (∀ (single : PerfEventReader) (ring : ℕ → UInt8) (head : UInt64),
      single.contextSwitch = true → single.pending = none → single.lost = wrappingReader.lost →
      Delivers single.capacity single.tail [(ring, head)]
        [[[sampleRecord], [switchRecord]].flatten] →
        (single.drain ring head).2 = .ok (lastSample (wrappingReader.drains twoCalls).2) ∧
        (single.drain ring head).1.pending = (wrappingReader.drains twoCalls).1.pending ∧
        (single.drain ring head).1.lost = (wrappingReader.drains twoCalls).1.lost) ∧
    ∀ (other : PerfEventReader) (ring : ℕ → UInt8) (head : UInt64),
      (other.drain ring head).1.tail = head ∧
      ∀ e, (other.drain ring head).2 = .error e → (other.drain ring head).1.pending = none ∧
        ∃ records progress, Holds other.capacity ring other.tail (allBytes records) ∧
          handleAll other.contextSwitch records ⟨other.pending, other.lost, none⟩ = .ok progress ∧
          (other.drain ring head).1.lost = saturatingAdd progress.lost 1 :=
  @drains_contextSwitch x86 wrappingReader twoCalls [[sampleRecord], [switchRecord]] rfl rfl
    delivers_twoCalls wellFormed_twoCalls

end PerfEventReader

end Procinsh.Sampling
