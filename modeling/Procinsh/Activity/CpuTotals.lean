import Procinsh.Activity.Processor
import Procinsh.Foundation.Tally

/-!
# The CPU counters of a key

The counters of a kernel key are rebuilt in each batch from two sources: the totals of what its
threads have used, and the slots of the CPUs that they are on.  They are the sums over the totals and
the slots that name the key, if these fit.
-/

namespace Procinsh

open Ipc

/-! ## The counters of a key -/

/-- The slots that count, each with its key, its CPU and its switch-in: not those of the idle
process, nor those newer than the time of the batch. -/
def slotItems (raw : CpuCounters) : List (ProcessKey × (ℕ × UInt64)) :=
  raw.current.zipIdx.filterMap fun slot =>
    (currentSlot raw.now slot.1).map fun e => (e.1, (slot.2, e.2))

/-- The totals, each with its key. -/
def totalItems (raw : CpuCounters) : List (ProcessKey × List (List.Vector UInt64 2)) :=
  raw.totals.filterMap fun e => (Ipc.processKey e.1).map fun key => (key, e.2)

/-- The CPUs whose slot names a key. -/
def cpusOf (raw : CpuCounters) (k : ProcessKey) : List ℕ :=
  ((slotItems raw).filter fun e => e.1 = k).map fun e => e.2.1

/-- How long a key has been on its CPUs. -/
def ongoingOf (raw : CpuCounters) (k : ProcessKey) : ℕ :=
  (((slotItems raw).filter fun e => e.1 = k).map fun e => raw.now.toNat - e.2.2.toNat).sum

/-- What the CPUs counted of a key, summed over its totals. -/
def totalOf (raw : CpuCounters) (f : List.Vector UInt64 2 → UInt64) (k : ProcessKey) : ℕ :=
  (((totalItems raw).filter fun e => e.1 = k).map fun e =>
    (e.2.map fun perCpu => (f perCpu).toNat).sum).sum

/-- The total runtime of a key. -/
def runtimeOf (raw : CpuCounters) (k : ProcessKey) : ℕ :=
  totalOf raw perCpuRuntime k + ongoingOf raw k

/-- The total switches of a key. -/
def switchesOf (raw : CpuCounters) (k : ProcessKey) : ℕ := totalOf raw perCpuSwitches k

/-- A key appears in the counters. -/
def Appears (raw : CpuCounters) (k : ProcessKey) : Prop :=
  k ∈ (totalItems raw).map Prod.fst ∨ k ∈ (slotItems raw).map Prod.fst

/-- The counters of a key are counted without saturation. -/
def Fits (raw : CpuCounters) (k : ProcessKey) : Prop :=
  runtimeOf raw k < 2 ^ 64 ∧ switchesOf raw k < 2 ^ 64

/-! ### The slots -/

/-- The CPUs of a key with one more. -/
abbrev addCpu (cpus : List ℕ) (e : ℕ × UInt64) : List ℕ := cpus ++ [e.1]

/-- The time of a key on its CPUs with that on one more. -/
abbrev addSince (now : UInt64) (time : UInt64) (e : ℕ × UInt64) : UInt64 := time + (now - e.2)

/-- The loop over the slots fills two tables. -/
theorem currentSlots_eq (raw : CpuCounters) :
    currentSlots raw =
      ⟨(slotItems raw).foldl (accumulate (addCpu []) addCpu) .empty,
        (slotItems raw).foldl (accumulate (addSince raw.now 0) (addSince raw.now)) .empty⟩ := by
  have hloop : ∀ (slots : List (List UInt8 × ℕ)) (s : CurrentSlots),
      slots.foldl (CurrentSlots.add raw.now) s =
        ⟨(slots.filterMap fun slot => (currentSlot raw.now slot.1).map fun e =>
            (e.1, (slot.2, e.2))).foldl (accumulate (addCpu []) addCpu) s.running,
          (slots.filterMap fun slot => (currentSlot raw.now slot.1).map fun e =>
            (e.1, (slot.2, e.2))).foldl (accumulate (addSince raw.now 0) (addSince raw.now))
              s.ongoing⟩ := by
    intro slots
    induction slots with
    | nil => exact fun _ => rfl
    | cons slot slots ih =>
      intro s
      rw [List.foldl_cons, ih]
      cases hslot : currentSlot raw.now slot.1 with
      | none => rw [List.filterMap_cons_none (by rw [hslot]; rfl), CurrentSlots.add, hslot]
      | some e =>
        have hrunning : (s.running.get? e.1).getD [] ++ [slot.2] =
            addTo (addCpu []) addCpu (s.running.get? e.1) (slot.2, e.2) := by
          cases s.running.get? e.1 <;> rfl
        have hongoing : (s.ongoing.get? e.1).getD 0 + (raw.now - e.2) =
            addTo (addSince raw.now 0) (addSince raw.now) (s.ongoing.get? e.1) (slot.2, e.2) := by
          cases s.ongoing.get? e.1 <;> rfl
        rw [List.filterMap_cons_some (by rw [hslot]; rfl), CurrentSlots.add, hslot]
        dsimp only
        rw [hrunning, hongoing]
        rfl
  exact hloop raw.current.zipIdx ⟨.empty, .empty⟩

theorem collect_cpus (items : List (ProcessKey × (ℕ × UInt64))) (k : ProcessKey) :
    (collect (addCpu []) addCpu items k).getD [] =
      (items.filter fun e => e.1 = k).map fun e => e.2.1 := by
  induction items using List.reverseRecOn with
  | nil => rfl
  | append_singleton items e ih =>
    rw [collect_concat, List.filter_append, List.map_append, ← ih, List.filter_singleton]
    by_cases he : e.1 = k
    · rw [if_pos he, decide_eq_true he]
      cases collect (addCpu []) addCpu items k <;> rfl
    · rw [if_neg he, decide_eq_false he]
      exact (List.append_nil _).symm

theorem running_currentSlots (raw : CpuCounters) (k : ProcessKey) :
    ((currentSlots raw).running.get? k).getD [] = cpusOf raw k := by
  rw [currentSlots_eq]
  dsimp only
  rw [get?_foldl_accumulate]
  exact collect_cpus (slotItems raw) k

theorem ongoing_currentSlots (raw : CpuCounters) (k : ProcessKey) :
    (currentSlots raw).ongoing.get? k =
      collect (addSince raw.now 0) (addSince raw.now) (slotItems raw) k := by
  rw [currentSlots_eq]
  dsimp only
  rw [get?_foldl_accumulate]
  rfl

/-- The switch-in of a slot that counts is not newer than the batch. -/
theorem since_le {raw : CpuCounters} {e : ProcessKey × (ℕ × UInt64)} (he : e ∈ slotItems raw) :
    e.2.2 ≤ raw.now := by
  obtain ⟨slot, -, hslot⟩ := List.mem_filterMap.mp he
  obtain ⟨⟨key, since⟩, hcurrent, rfl⟩ := Option.map_eq_some_iff.mp hslot
  unfold currentSlot at hcurrent
  split at hcurrent
  · exact nomatch hcurrent
  · dsimp only at hcurrent
    split at hcurrent
    · exact nomatch hcurrent
    · next hold =>
      obtain ⟨-, rfl⟩ := Prod.mk.inj (Option.some_inj.mp hcurrent)
      exact UInt64.not_lt.mp (not_or.mp hold).2

/-! ### The totals -/

theorem get?_totals (raw : CpuCounters) (k : ProcessKey) :
    (raw.totals.foldl addTotals .empty).get? k =
      collect (fun v => v.foldl addPerCpu (0, 0)) (fun t v => v.foldl addPerCpu t)
        (totalItems raw) k := by
  have hloop : ∀ (totals : List (List UInt8 × List (List.Vector UInt64 2)))
      (m : OrderedMap ProcessKey CpuTotal), totals.foldl addTotals m =
        (totals.filterMap fun e => (Ipc.processKey e.1).map fun key => (key, e.2)).foldl
          (accumulate (fun v => v.foldl addPerCpu (0, 0)) fun t v => v.foldl addPerCpu t) m := by
    intro totals
    induction totals with
    | nil => exact fun _ => rfl
    | cons e totals ih =>
      intro m
      rw [List.foldl_cons, ih]
      cases hkey : Ipc.processKey e.1 with
      | none => rw [List.filterMap_cons_none (by rw [hkey]; rfl), addTotals, hkey]
      | some key =>
        have hvalue : e.2.foldl addPerCpu ((m.get? key).getD (0, 0)) =
            addTo (fun v => v.foldl addPerCpu (0, 0)) (fun t v => v.foldl addPerCpu t)
              (m.get? key) e.2 := by
          cases m.get? key <;> rfl
        rw [List.filterMap_cons_some (by rw [hkey]; rfl), addTotals, hkey]
        dsimp only
        rw [hvalue]
        rfl
  rw [hloop, get?_foldl_accumulate]
  rfl

section Counter

/- One of the two counters, and what the CPUs counted of it. -/
variable {counter : CpuTotal → UInt64} {f : List.Vector UInt64 2 → UInt64}
  (hadd : ∀ total perCpu, counter (addPerCpu total perCpu) =
    saturatingAdd (counter total) (f perCpu))

include hadd

theorem counter_foldl_addPerCpu (total : CpuTotal) (values : List (List.Vector UInt64 2))
    (h : (counter total).toNat + (values.map fun perCpu => (f perCpu).toNat).sum < 2 ^ 64) :
    (counter (values.foldl addPerCpu total)).toNat =
      (counter total).toNat + (values.map fun perCpu => (f perCpu).toNat).sum := by
  induction values generalizing total with
  | nil => rfl
  | cons perCpu values ih =>
    rw [List.map_cons, List.sum_cons] at h ⊢
    have hfits : (counter total).toNat + (f perCpu).toNat < 2 ^ 64 := by omega
    have hstep := toNat_saturatingAdd_of_lt hfits
    rw [← hadd] at hstep
    rw [List.foldl_cons, ih _ (by omega), hstep, Nat.add_assoc]

/-- The totals of a key are the sums over its entries, if they fit. -/
theorem counter_totals (hzero : counter (0, 0) = 0) {raw : CpuCounters} {k : ProcessKey}
    (h : totalOf raw f k < 2 ^ 64) :
    (counter (((raw.totals.foldl addTotals .empty).get? k).getD (0, 0))).toNat =
      totalOf raw f k := by
  have hnone : (counter (0, 0)).toNat = 0 := congrArg UInt64.toNat hzero
  rw [get?_totals]
  cases hcollect : collect (fun v => v.foldl addPerCpu (0, 0)) (fun t v => v.foldl addPerCpu t)
      (totalItems raw) k with
  | none =>
    rw [totalOf, filter_eq_nil_of_collect hcollect]
    exact hnone
  | some total =>
    refine sum_collect (f := fun total => (counter total).toNat) (fun v hv => ?_)
      (fun total v hv => counter_foldl_addPerCpu hadd total v hv) hcollect h
    have hfold := counter_foldl_addPerCpu hadd (0, 0) v (by rw [hnone, Nat.zero_add]; exact hv)
    rwa [hnone, Nat.zero_add] at hfold

end Counter

/-- The time of a key on its CPUs is the sum over its slots, if it fits. -/
theorem toNat_ongoing {raw : CpuCounters} {k : ProcessKey} (h : ongoingOf raw k < 2 ^ 64) :
    (((currentSlots raw).ongoing.get? k).getD 0).toNat = ongoingOf raw k := by
  have hsum : ongoingOf raw k =
      (((slotItems raw).filter fun e => e.1 = k).map fun e => (raw.now - e.2.2).toNat).sum := by
    refine congrArg List.sum (List.map_congr_left fun e he => ?_)
    exact (UInt64.toNat_sub_of_le _ _ (since_le (List.mem_filter.mp he).1)).symm
  rw [ongoing_currentSlots, hsum]
  rw [hsum] at h
  cases hcollect : collect (addSince raw.now 0) (addSince raw.now) (slotItems raw) k with
  | none =>
    rw [filter_eq_nil_of_collect hcollect]
    rfl
  | some time =>
    have hfirst (e : ℕ × UInt64) (_ : (raw.now - e.2).toNat < 2 ^ 64) :
        (addSince raw.now 0 e).toNat = (raw.now - e.2).toNat := by
      rw [addSince, UInt64.zero_add]
    have hnext (t : UInt64) (e : ℕ × UInt64) (ht : t.toNat + (raw.now - e.2).toNat < 2 ^ 64) :
        (addSince raw.now t e).toNat = t.toNat + (raw.now - e.2).toNat := by
      rw [addSince, UInt64.toNat_add, Nat.mod_eq_of_lt ht]
    exact sum_collect hfirst hnext hcollect h

/-! ### Both together -/

theorem addOngoing_eq (m : OrderedMap ProcessKey CpuTotal) (e : ProcessKey × UInt64) :
    addOngoing m e = accumulate (fun time => (saturatingAdd 0 time, 0))
      (fun (total : CpuTotal) time => (saturatingAdd total.1 time, total.2)) m e := by
  unfold addOngoing accumulate
  cases m.get? e.1 <;> rfl

theorem get?_cumulativeTotals_eq (raw : CpuCounters) (k : ProcessKey) :
    (cumulativeTotals raw).get? k =
      ((currentSlots raw).ongoing.get? k).elim ((raw.totals.foldl addTotals .empty).get? k)
        fun time => some
          (saturatingAdd (((raw.totals.foldl addTotals .empty).get? k).getD (0, 0)).1 time,
            (((raw.totals.foldl addTotals .empty).get? k).getD (0, 0)).2) := by
  have hfold : addOngoing = accumulate (fun time => (saturatingAdd 0 time, 0))
      fun (total : CpuTotal) time => (saturatingAdd total.1 time, total.2) :=
    funext fun m => funext (addOngoing_eq m)
  rw [cumulativeTotals, hfold, get?_foldl_accumulate, foldl_entries_of_key]
  cases (raw.totals.foldl addTotals .empty).get? k <;> rfl

/-- A key has counters exactly if it appears. -/
theorem cumulativeTotals_eq_none_iff (raw : CpuCounters) (k : ProcessKey) :
    (cumulativeTotals raw).get? k = none ↔ ¬ Appears raw k := by
  rw [get?_cumulativeTotals_eq, ongoing_currentSlots, get?_totals, Appears, not_or,
    ← collect_eq_none_iff (fun v => v.foldl addPerCpu (0, 0)) fun t v => v.foldl addPerCpu t,
    ← collect_eq_none_iff (addSince raw.now 0) (addSince raw.now)]
  cases collect (addSince raw.now 0) (addSince raw.now) (slotItems raw) k <;> simp

/-- The counters of a key that appears are its sums. -/
theorem get?_cumulativeTotals {raw : CpuCounters} {k : ProcessKey} (happears : Appears raw k)
    (hfits : Fits raw k) : ∃ total, (cumulativeTotals raw).get? k = some total ∧
      total.1.toNat = runtimeOf raw k ∧ total.2.toNat = switchesOf raw k := by
  obtain ⟨hruntime, hswitches⟩ := hfits
  have htotal : (((raw.totals.foldl addTotals .empty).get? k).getD (0, 0)).1.toNat =
      totalOf raw perCpuRuntime k :=
    counter_totals (fun _ _ => rfl) rfl (Nat.lt_of_le_of_lt (Nat.le_add_right _ _) hruntime)
  have hswitch : (((raw.totals.foldl addTotals .empty).get? k).getD (0, 0)).2.toNat =
      totalOf raw perCpuSwitches k := counter_totals (fun _ _ => rfl) rfl hswitches
  have hongoing : (((currentSlots raw).ongoing.get? k).getD 0).toNat = ongoingOf raw k :=
    toNat_ongoing (Nat.lt_of_le_of_lt (Nat.le_add_left _ _) hruntime)
  obtain ⟨total, hget⟩ := Option.ne_none_iff_exists'.mp
    (mt (cumulativeTotals_eq_none_iff raw k).mp (not_not.mpr happears))
  refine ⟨total, hget, ?_⟩
  rw [get?_cumulativeTotals_eq] at hget
  cases htime : (currentSlots raw).ongoing.get? k with
  | none =>
    rw [htime] at hget hongoing
    have hvalue : (raw.totals.foldl addTotals .empty).get? k = some total := hget
    have hnone : 0 = ongoingOf raw k := hongoing
    rw [hvalue] at htotal hswitch
    exact ⟨by rw [runtimeOf, ← hnone, ← htotal]; rfl, hswitch⟩
  | some time =>
    rw [htime] at hget hongoing
    have hvalue := Option.some_inj.mp hget
    have htimes : time.toNat = ongoingOf raw k := hongoing
    rw [← hvalue]
    refine ⟨?_, hswitch⟩
    rw [runtimeOf, ← htotal, ← htimes] at hruntime ⊢
    exact toNat_saturatingAdd_of_lt hruntime

end Procinsh
