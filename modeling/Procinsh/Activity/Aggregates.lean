import Procinsh.Activity.Processor
import Procinsh.Foundation.Tally

/-!
# What the activity of a batch adds up

A file batch looks a key up before it asks whether there are too many keys: the sums that it reports
are over all events of a key, and the events of the other keys are counted as dropped.  The loop over
the IPC events asks first.  Behind the event with the last key that fits it counts every event as
unresolved, also one of a key that it reports, so its sums are over all events exactly if no such
event comes.  Both are tallies, and what they sum up follows from the rules of tallies.
-/

namespace Procinsh

open Ipc

/-! ## What is summed up -/

/-- The events that are resolved to a key. -/
def eventsOf (ticksPerSecond : ℕ) (known : KnownProcesses) (events : List IpcEvent) (k : IpcKey) :
    List IpcEvent :=
  events.filter fun e => resolveIpc ticksPerSecond known e = some k

/-- The keys that the events are resolved to, in their order. -/
def resolvedKeys (ticksPerSecond : ℕ) (known : KnownProcesses) (events : List IpcEvent) :
    List IpcKey := events.filterMap (resolveIpc ticksPerSecond known)

/-- The batch adds up all IPC events of the keys that it reports. -/
structure SumsIpc (ticksPerSecond : ℕ) (p : ActivityProcessor) (raw : RawActivity)
    (known : KnownProcesses) : Prop where
  bytes : ∀ a ∈ (p.process ticksPerSecond raw known).1.ipc, a.bytes.toNat =
    saturatedSum ((eventsOf ticksPerSecond known raw.ipc a.key).map IpcEvent.bytes)
  count : ∀ a ∈ (p.process ticksPerSecond raw known).1.ipc,
    a.count.toNat = (eventsOf ticksPerSecond known raw.ipc a.key).length

/-- Every IPC event is in a count or makes the unresolved ones more, and no key is reported twice. -/
structure CountsIpc (ticksPerSecond : ℕ) (p : ActivityProcessor) (raw : RawActivity)
    (known : KnownProcesses) : Prop where
  all : ((p.process ticksPerSecond raw known).1.ipc.map fun a => a.count.toNat).sum +
    (p.process ticksPerSecond raw known).2.unresolved = raw.ipc.length + p.unresolved
  distinct : ((p.process ticksPerSecond raw known).1.ipc.map IpcActivity.key).Nodup

/-- A file batch adds up all events of the keys that it reports, and drops the others. -/
structure SumsFiles (events : List FileActivity) (batch : FileBatch) : Prop where
  bytes : ∀ a ∈ batch.events.values,
    a.bytes.toNat = saturatedSum ((events.filter fun e => e.key = a.key).map FileActivity.bytes)
  count : ∀ a ∈ batch.events.values,
    a.count.toNat = saturatedSum ((events.filter fun e => e.key = a.key).map FileActivity.count)
  dropped : batch.dropped = events.countP fun e => e.key ∉ batch.events.values.map FileActivity.key

/-! ## File batches -/

/-- A file batch as a tally. -/
def FileBatch.tally (batch : FileBatch) : Tally FileKey FileActivity :=
  ⟨batch.events, batch.dropped⟩

theorem FileBatch.tally_add (batch : FileBatch) (event : FileActivity) :
    Tally.record id FileActivity.merge maxAggregates batch.tally (event.key, event) =
      (batch.add event).tally := by
  unfold add
  cases hprior : batch.events.get? event.key with
  | some prior =>
    have htally : batch.tally.table.get? event.key = some prior := hprior
    have hput : Tally.record id FileActivity.merge maxAggregates batch.tally (event.key, event) =
        Tally.put id FileActivity.merge batch.tally (event.key, event) :=
      if_pos (.inl (Option.isSome_iff_exists.mpr ⟨prior, htally⟩))
    rw [hput, Tally.put, accumulate, htally]
    rfl
  | none =>
    have htally : batch.tally.table.get? event.key = none := hprior
    dsimp only
    by_cases hspace : batch.events.entries.length < maxAggregates
    · have hput : Tally.record id FileActivity.merge maxAggregates batch.tally (event.key, event) =
          Tally.put id FileActivity.merge batch.tally (event.key, event) := if_pos (.inr hspace)
      rw [if_pos hspace, hput, Tally.put, accumulate, htally]
      rfl
    · have hdrop : Tally.record id FileActivity.merge maxAggregates batch.tally (event.key, event) =
          Tally.drop batch.tally := by
        refine if_neg (not_or.mpr ⟨?_, hspace⟩)
        rw [htally]
        exact Bool.false_ne_true
      rw [if_neg hspace, hdrop]
      rfl

theorem FileBatch.tally_foldl (events : List FileActivity) :
    (events.foldl add empty).tally = (events.map fun e => (e.key, e)).foldl
      (Tally.record id FileActivity.merge maxAggregates) Tally.empty := by
  rw [List.foldl_map]
  exact (List.foldl_hom tally tally_add).symm

/-- What is collected of a key has that key. -/
theorem key_of_collect {events : List FileActivity} {k : FileKey} {a : FileActivity}
    (h : collect id FileActivity.merge (events.map fun e => (e.key, e)) k = some a) :
    a.key = k := by
  induction events using List.reverseRecOn generalizing a with
  | nil => exact nomatch h
  | append_singleton events e ih =>
    rw [List.map_append, List.map_singleton, collect_concat] at h
    by_cases he : e.key = k
    · rw [if_pos he, Option.some_inj] at h
      cases hprior : collect id FileActivity.merge (events.map fun e => (e.key, e)) k with
      | none =>
        rw [hprior] at h
        exact h ▸ he
      | some prior =>
        have hkey : prior.key = k := ih hprior
        rw [hprior] at h
        rw [← h]
        exact hkey
    · rw [if_neg he] at h
      exact ih h

theorem filter_keyed (events : List FileActivity) (k : FileKey) (f : FileActivity → UInt64) :
    (((events.map fun e => (e.key, e)).filter fun e => e.1 = k).map fun e => f e.2) =
      (events.filter fun e => e.key = k).map f := by
  rw [List.filter_map, List.map_map]
  rfl

/-- Whatever the events are, a file batch adds up all events of the keys that it reports. -/
theorem sumsFiles (events : List FileActivity) :
    SumsFiles events (events.foldl FileBatch.add .empty) := by
  have hexact := (Tally.record_exact id FileActivity.merge maxAggregates
    (events.map fun e => (e.key, e))).1
  have hdropped := Tally.record_dropped id
    FileActivity.merge maxAggregates (events.map fun e => (e.key, e))
  rw [← FileBatch.tally_foldl] at hexact hdropped
  generalize events.foldl FileBatch.add .empty = batch at hexact hdropped ⊢
  have hcollect : ∀ a ∈ batch.events.values,
      collect id FileActivity.merge (events.map fun e => (e.key, e)) a.key = some a := by
    intro a ha
    obtain ⟨⟨k, a⟩, he, rfl⟩ := List.mem_map.mp ha
    have hk := hexact k a (OrderedMap.get?_eq_some_iff.mpr he)
    rwa [key_of_collect hk]
  refine ⟨fun a ha => ?_, fun a ha => ?_, ?_⟩
  · rw [← filter_keyed]
    exact saturating_collect (f := FileActivity.bytes) (g := FileActivity.bytes) (fun _ => rfl)
      (fun _ _ => rfl) (hcollect a ha)
  · rw [← filter_keyed]
    exact saturating_collect (f := FileActivity.count) (g := FileActivity.count) (fun _ => rfl)
      (fun _ _ => rfl) (hcollect a ha)
  · have hkeys : batch.events.values.map FileActivity.key = batch.events.entries.map Prod.fst := by
      rw [OrderedMap.values, List.map_map]
      refine List.map_congr_left fun e he => ?_
      exact key_of_collect (hexact e.1 e.2 (OrderedMap.get?_eq_some_iff.mpr he))
    rw [hkeys]
    change batch.tally.dropped = _
    rw [hdropped, List.countP_map]
    refine List.countP_congr fun e _ => ?_
    rw [Function.comp_apply, Option.isNone_iff_eq_none, decide_eq_true_eq]
    exact OrderedMap.get?_eq_none_iff

/-! ## IPC events -/

/-- The totals of an event that is the first of its key. -/
def firstTotals (bytes : UInt64) : UInt64 × ℕ := (saturatingAdd 0 bytes, 1)

/-- The totals of a key with one event more. -/
def addTotal (totals : UInt64 × ℕ) (bytes : UInt64) : UInt64 × ℕ :=
  (saturatingAdd totals.1 bytes, totals.2 + 1)

/-- The events that are resolved, as items of a tally. -/
def resolvedItems (ticksPerSecond : ℕ) (known : KnownProcesses) (events : List IpcEvent) :
    List (IpcKey × UInt64) :=
  events.filterMap fun e => (resolveIpc ticksPerSecond known e).map fun k => (k, e.bytes)

section Loop

variable {ticksPerSecond : ℕ} {known : KnownProcesses}

theorem resolvedItems_keys (events : List IpcEvent) :
    (resolvedItems ticksPerSecond known events).map Prod.fst =
      resolvedKeys ticksPerSecond known events := by
  rw [resolvedItems, resolvedKeys, List.map_filterMap]
  refine List.filterMap_congr fun e _ => ?_
  rw [Option.map_map]
  exact Option.map_id'

variable (ticksPerSecond known) in
theorem resolvedItems_bytes (events : List IpcEvent) (k : IpcKey) :
    (((resolvedItems ticksPerSecond known events).filter fun e => e.1 = k).map fun e => e.2) =
      (eventsOf ticksPerSecond known events k).map IpcEvent.bytes := by
  unfold resolvedItems eventsOf
  induction events with
  | nil => rfl
  | cons e events ih =>
    cases hkey : resolveIpc ticksPerSecond known e with
    | none =>
      rw [List.filterMap_cons_none (by rw [hkey]; rfl), List.filter_cons_of_neg (by simp [hkey])]
      exact ih
    | some l =>
      rw [List.filterMap_cons_some (by rw [hkey]; rfl)]
      by_cases hl : l = k
      · rw [List.filter_cons_of_pos (by simpa using hl),
          List.filter_cons_of_pos (by simpa [hkey] using hl), List.map_cons, List.map_cons, ih]
      · rw [List.filter_cons_of_neg (by simpa using hl),
          List.filter_cons_of_neg (by simpa [hkey] using hl), ih]

theorem countP_resolvedItems (events : List IpcEvent) (k : IpcKey) :
    ((resolvedItems ticksPerSecond known events).countP fun e => e.1 = k) =
      (eventsOf ticksPerSecond known events k).length := by
  have hbytes := congrArg List.length
    (resolvedItems_bytes ticksPerSecond known events k)
  rw [List.length_map, List.length_map] at hbytes
  rw [List.countP_eq_length_filter, hbytes]

/-- One event is an item of the tally, or is unresolved. -/
theorem pendingIpc_add (s : PendingIpc) (t : Tally IpcKey (UInt64 × ℕ)) (h : s.pending = t.table)
    {e : IpcEvent} {k : IpcKey} (hk : resolveIpc ticksPerSecond known e = some k) :
    (s.add ticksPerSecond known e).pending =
        (Tally.recordUnlessFull firstTotals addTotal 8192 t (k, e.bytes)).table ∧
      (s.add ticksPerSecond known e).unresolved + t.dropped = s.unresolved +
        (Tally.recordUnlessFull firstTotals addTotal 8192 t (k, e.bytes)).dropped := by
  unfold PendingIpc.add Tally.recordUnlessFull
  rw [hk, ← h]
  dsimp only
  split
  · exact ⟨h, Nat.add_right_comm _ _ _⟩
  · refine ⟨?_, rfl⟩
    rw [Tally.put, accumulate, ← h]
    cases s.pending.get? k <;> rfl

/-- The loop over the events is a tally of those that are resolved; the others are unresolved. -/
theorem foldl_pendingIpc (events : List IpcEvent) (s : PendingIpc) (t : Tally IpcKey (UInt64 × ℕ))
    (h : s.pending = t.table) :
    (events.foldl (PendingIpc.add ticksPerSecond known) s).pending =
        ((resolvedItems ticksPerSecond known events).foldl
          (Tally.recordUnlessFull firstTotals addTotal 8192) t).table ∧
      (events.foldl (PendingIpc.add ticksPerSecond known) s).unresolved + t.dropped +
          (resolvedItems ticksPerSecond known events).length =
        s.unresolved + events.length + ((resolvedItems ticksPerSecond known events).foldl
          (Tally.recordUnlessFull firstTotals addTotal 8192) t).dropped := by
  induction events generalizing s t with
  | nil => exact ⟨h, rfl⟩
  | cons e events ih =>
    rw [List.foldl_cons]
    cases hk : resolveIpc ticksPerSecond known e with
    | none =>
      have hitems : resolvedItems ticksPerSecond known (e :: events) =
          resolvedItems ticksPerSecond known events :=
        List.filterMap_cons_none (by rw [hk]; rfl)
      have hadd : s.add ticksPerSecond known e = { s with unresolved := s.unresolved + 1 } := by
        rw [PendingIpc.add, hk]
      obtain ⟨hpending, hunresolved⟩ := ih { s with unresolved := s.unresolved + 1 } t h
      rw [hitems, hadd, List.length_cons]
      refine ⟨hpending, ?_⟩
      dsimp only at hunresolved
      omega
    | some k =>
      have hitems : resolvedItems ticksPerSecond known (e :: events) =
          (k, e.bytes) :: resolvedItems ticksPerSecond known events :=
        List.filterMap_cons_some (by rw [hk]; rfl)
      obtain ⟨htable, hdropped⟩ := pendingIpc_add s t h hk
      obtain ⟨hpending, hunresolved⟩ := ih _ _ htable
      rw [hitems, List.foldl_cons, List.length_cons, List.length_cons]
      refine ⟨hpending, ?_⟩
      omega

/-- The tally of the events of a batch. -/
def ipcTally (ticksPerSecond : ℕ) (known : KnownProcesses) (events : List IpcEvent) :
    Tally IpcKey (UInt64 × ℕ) :=
  (resolvedItems ticksPerSecond known events).foldl
    (Tally.recordUnlessFull firstTotals addTotal 8192) .empty

end Loop

/-! ## The sums of a batch -/

section Batch

variable (ticksPerSecond : ℕ) (p : ActivityProcessor) (raw : RawActivity) (known : KnownProcesses)

/-- What is reported of IPC events is the table of their tally. -/
theorem ipc_process :
    (p.process ticksPerSecond raw known).1.ipc =
      (ipcTally ticksPerSecond known raw.ipc).table.entries.map ipcActivity :=
  congrArg (fun m => m.entries.map ipcActivity)
    (foldl_pendingIpc raw.ipc ⟨.empty, p.unresolved⟩ .empty rfl).1

/-- The events that are unresolved are those that are not resolved and those that are dropped. -/
theorem unresolved_process :
    (p.process ticksPerSecond raw known).2.unresolved +
        (resolvedItems ticksPerSecond known raw.ipc).length =
      p.unresolved + raw.ipc.length + (ipcTally ticksPerSecond known raw.ipc).dropped :=
  (foldl_pendingIpc raw.ipc ⟨.empty, p.unresolved⟩ .empty rfl).2

theorem weight_firstTotals (bytes : UInt64) : (firstTotals bytes).2 = 1 := rfl

theorem weight_addTotal (totals : UInt64 × ℕ) (bytes : UInt64) :
    (addTotal totals bytes).2 = totals.2 + 1 := rfl

/-- The events of a list in memory are fewer than a counter can count. -/
theorem toNat_count (hlen : raw.ipc.length < 2 ^ 64) {e : IpcKey × (UInt64 × ℕ)}
    (he : e ∈ (ipcTally ticksPerSecond known raw.ipc).table.entries) :
    (ipcActivity e).count.toNat = e.2.2 := by
  have hle : e.2.2 ≤ _ := Tally.weight_recordUnlessFull_le weight_firstTotals weight_addTotal 8192
    (resolvedItems ticksPerSecond known raw.ipc) (OrderedMap.get?_eq_some_iff.mpr he)
  have hcount : _ ≤ (resolvedItems ticksPerSecond known raw.ipc).length :=
    List.countP_le_length (p := fun x => x.1 = e.1)
  have hitems := List.length_filterMap_le (fun e : IpcEvent =>
    (resolveIpc ticksPerSecond known e).map fun k => (k, e.bytes)) raw.ipc
  exact UInt64.toNat_ofNat_of_lt' (hle.trans_lt (hcount.trans_lt (hitems.trans_lt hlen)))

/-- The counts and the unresolved events of a batch are all its events. -/
theorem countsIpc (hlen : raw.ipc.length < 2 ^ 64) : CountsIpc ticksPerSecond p raw known := by
  have hipc := ipc_process ticksPerSecond p raw known
  refine ⟨?_, ?_⟩
  · have hsum : (((ipcTally ticksPerSecond known raw.ipc).table.entries.map ipcActivity).map
        fun a => a.count.toNat) =
        (ipcTally ticksPerSecond known raw.ipc).table.values.map Prod.snd := by
      rw [OrderedMap.values, List.map_map, List.map_map]
      exact List.map_congr_left fun e he => toNat_count ticksPerSecond raw known hlen he
    have hall : (_ : List ℕ).sum + _ = _ := Tally.sum_weight_recordUnlessFull weight_firstTotals
      weight_addTotal 8192 (resolvedItems ticksPerSecond known raw.ipc)
    have hunresolved := unresolved_process ticksPerSecond p raw known
    rw [hipc, hsum]
    unfold ipcTally at hunresolved ⊢
    omega
  · rw [hipc, List.map_map]
    exact (ipcTally ticksPerSecond known raw.ipc).table.nodup

/-- The sums are over all events exactly if no key among the first 8192 occurs behind them. -/
theorem sumsIpc_iff (hlen : raw.ipc.length < 2 ^ 64) :
    SumsIpc ticksPerSecond p raw known ↔
      NoLateKey 8192 (resolvedKeys ticksPerSecond known raw.ipc) := by
  have hipc := ipc_process ticksPerSecond p raw known
  constructor
  · intro h
    rw [← resolvedItems_keys]
    refine Tally.noLateKey_of_weight weight_firstTotals weight_addTotal fun k totals htotals => ?_
    have he := OrderedMap.get?_eq_some_iff.mp htotals
    have hcount := h.count (ipcActivity (k, totals)) (hipc ▸ List.mem_map_of_mem he)
    rw [toNat_count ticksPerSecond raw known hlen he] at hcount
    rw [countP_resolvedItems]
    exact hcount
  · intro h
    rw [← resolvedItems_keys] at h
    have hexact := (Tally.recordUnlessFull_exact firstTotals addTotal h).1
    refine ⟨fun a ha => ?_, fun a ha => ?_⟩ <;> rw [hipc] at ha
    · obtain ⟨e, he, rfl⟩ := List.mem_map.mp ha
      have hcollect := hexact e.1 e.2 (OrderedMap.get?_eq_some_iff.mpr he)
      have hbytes := saturating_collect (f := Prod.fst) (g := id)
        (fun v => zero_saturatingAdd v) (fun _ _ => rfl) hcollect
      rw [← resolvedItems_bytes ticksPerSecond known]
      exact hbytes
    · obtain ⟨e, he, rfl⟩ := List.mem_map.mp ha
      have hcollect := hexact e.1 e.2 (OrderedMap.get?_eq_some_iff.mpr he)
      have hweight := Tally.weight_collect weight_firstTotals weight_addTotal hcollect
      rw [toNat_count ticksPerSecond raw known hlen he, hweight, countP_resolvedItems]
      rfl

/-- What a batch adds up, counts and drops is right for every list of events exactly if no key among
the first 8192 occurs behind them. -/
theorem aggregation_iff (hlen : raw.ipc.length < 2 ^ 64) :
    (SumsIpc ticksPerSecond p raw known ∧ CountsIpc ticksPerSecond p raw known ∧
        SumsFiles raw.files (raw.files.foldl FileBatch.add .empty)) ↔
      NoLateKey 8192 (resolvedKeys ticksPerSecond known raw.ipc) := by
  rw [sumsIpc_iff ticksPerSecond p raw known hlen]
  refine and_iff_left ⟨countsIpc ticksPerSecond p raw known hlen, sumsFiles raw.files⟩

end Batch

/-! ### A key that comes too late -/

/-- A process that reads from pipes. -/
def pipeReader : ProcessId := ⟨1, 0⟩

/-- The reader reads a byte from a pipe. -/
def pipeRead (inode : ℕ) : IpcEvent := ⟨0, .ofNat inode, 0, 1, 1, 1, false, false⟩

/-- The reader reads once from each of some pipes, and once more from the first. -/
def lateReads (n : ℕ) : List IpcEvent := (List.range n).map pipeRead ++ [pipeRead 0]

/-- The processes of the snapshot are the reader. -/
def knownReader : KnownProcesses := .ofList [(1, pipeReader)]

/-- The key of the reads from a pipe. -/
def pipeKey (inode : ℕ) : IpcKey := (pipeReader, ⟨.pipe, ⟨0, 0⟩, .ofNat inode⟩, false)

theorem resolveIpc_pipeRead (inode : ℕ) :
    resolveIpc 100 knownReader (pipeRead inode) = some (pipeKey inode) := by
  have hknown : knownReader.get? (1 : UInt32).toInt32 = some pipeReader := by decide
  have hticks : startTicks 100 0 = pipeReader.startTimeTicks := by decide
  have hdevice : DeviceId.fromKernel 0 = ⟨0, 0⟩ := by decide
  change ((knownReader.get? (1 : UInt32).toInt32).filter fun id =>
    startTicks 100 0 == id.startTimeTicks).map _ = _
  rw [hknown, hticks, Option.filter_some, if_pos (beq_iff_eq.mpr rfl), Option.map_some, pipeKey,
    ← hdevice]
  rfl

theorem resolvedKeys_lateReads (n : ℕ) :
    resolvedKeys 100 knownReader (lateReads n) = (List.range n).map pipeKey ++ [pipeKey 0] := by
  rw [resolvedKeys, lateReads, List.filterMap_append, List.filterMap_map]
  have hrange : resolveIpc 100 knownReader ∘ pipeRead = some ∘ pipeKey :=
    funext resolveIpc_pipeRead
  rw [hrange, ← List.filterMap_map, List.filterMap_some]
  rfl

theorem aggregation_pipeRead :
    (SumsIpc 100 .default ⟨[], [pipeRead 0], [], ⟨0, [], []⟩⟩ knownReader ∧
        CountsIpc 100 .default ⟨[], [pipeRead 0], [], ⟨0, [], []⟩⟩ knownReader ∧
        SumsFiles [] (([] : List FileActivity).foldl FileBatch.add .empty)) ↔
      NoLateKey 8192 (resolvedKeys 100 knownReader [pipeRead 0]) :=
  aggregation_iff 100 .default ⟨[], [pipeRead 0], [], ⟨0, [], []⟩⟩ knownReader (by decide)

/-- The last read is of the first pipe, whose reads are reported; it is counted as unresolved. -/
theorem not_aggregation_lateReads :
    ¬ (SumsIpc 100 .default ⟨[], lateReads 8192, [], ⟨0, [], []⟩⟩ knownReader ∧
        CountsIpc 100 .default ⟨[], lateReads 8192, [], ⟨0, [], []⟩⟩ knownReader ∧
        SumsFiles [] (([] : List FileActivity).foldl FileBatch.add .empty)) := by
  rintro ⟨hsums, -, -⟩
  have hlen : (lateReads 8192).length < 2 ^ 64 := by
    rw [lateReads, List.length_append, List.length_map, List.length_range]
    decide
  have hlate := (sumsIpc_iff 100 .default ⟨[], lateReads 8192, [], ⟨0, [], []⟩⟩ _ hlen).mp hsums
  have hnodup : ((List.range 8192).map pipeKey).Nodup := by
    refine List.Nodup.map_on (fun i hi j hj hij => ?_) List.nodup_range
    have hinode : UInt64.ofNat i = UInt64.ofNat j := congrArg (fun k => k.2.1.inode) hij
    have hi := List.mem_range.mp hi
    have hj := List.mem_range.mp hj
    have hnat := congrArg UInt64.toNat hinode
    have hsize : (8192 : ℕ) < UInt64.size := by decide
    rwa [UInt64.toNat_ofNat_of_lt' (hi.trans hsize),
      UInt64.toNat_ofNat_of_lt' (hj.trans hsize)] at hnat
  have hlength : ((List.range 8192).map pipeKey).length = 8192 := by
    rw [List.length_map, List.length_range]
  refine hlate _ (pipeKey 0) [] (resolvedKeys_lateReads 8192) ?_ ?_
  · rw [distinct_of_nodup hnodup, hlength]
  · rw [distinct_of_nodup hnodup, List.take_of_length_le hlength.le]
    exact List.mem_map_of_mem (List.mem_range.mpr (by decide))

end Procinsh
