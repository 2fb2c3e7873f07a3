import Procinsh.Foundation.Checked
import Procinsh.Foundation.LittleEndian
import Procinsh.Foundation.Saturating
import Procinsh.Ipc.Acquisition
import Procinsh.Ipc.Processes

/-!
# Perf events

A `PerfEventReader` (`src/privileged_helper/process/snapshot/perf.rs`) reads the records that the
kernel writes to a ring of bytes.  Positions count bytes without end, modulo `2 ^ 64`, and a byte is at
its position modulo the capacity.  The reader of a context switch event keeps the last sample until a
record says whether the thread was switched out there; other readers return their last sample.

What the kernel has written is the input of each `drain`: the bytes of the ring and the position
behind the last record.
-/

namespace Procinsh.Sampling

open Ipc

/-! ## Samples -/

/-- The registers and the stack of a thread. -/
structure RawSample where
  source : SampleSource
  tid : Int32
  timeNs : UInt64
  cpu : Option UInt32
  registers : RegisterSet
  stack : List UInt8
  deriving DecidableEq

/-- A reader of bytes. -/
abbrev Cursor := StateT (List UInt8) (Except String)

def takeBytes (n : ℕ) : Cursor (List UInt8) := fun bytes =>
  if n ≤ bytes.length then .ok (bytes.take n, bytes.drop n) else .error "truncated perf sample"

def takeU64 : Cursor UInt64 := do
  return .ofNat (leValue (← takeBytes 8))

/-- The thread of a process and a thread. -/
def tidOf (tids : List UInt8) : Int32 := (UInt32.ofNat (leValue (tids.drop 4))).toInt32

/-- The registers that are recorded, as bits. -/
def perfRegsMask [Target] : ℕ := if Target.aarch64 then 2 ^ 33 - 1 else 0x3ff ||| 0xff <<< 16

/-- The sample of a record, unless the thread has no user registers. -/
def parsePerfSample [Target] (bytes : List UInt8) : Except String (Option RawSample) :=
  StateT.run' (m := Except String) (s := bytes) do
    let tids ← takeBytes 8
    let timeNs ← takeU64
    let cpu ← takeU64
    let abi ← takeU64
    if abi = 0 then return none
    else if abi ≠ 2 then throw "perf sample is not 64-bit user mode"
    else
      let values ← (List.range RegisterSet.count).mapM fun i =>
        if perfRegsMask.testBit i then takeU64 else pure 0
      let length ← takeU64
      let stack ← takeBytes length.toNat
      let used ← if length = 0 then pure 0 else takeU64
      if length < used then throw "invalid perf dynamic stack size"
      else
        return some {
          source := .cpuClock
          tid := tidOf tids
          timeNs := timeNs
          cpu := some cpu.toUInt32
          registers := ⟨values, !Target.aarch64, none⟩
          stack := stack.take used.toNat }

/-- The thread, the time and the processor of a switch. -/
def readSwitch (bytes : List UInt8) : Except String (Int32 × UInt64 × UInt32) :=
  StateT.run' (m := Except String) (s := bytes) do
    let tids ← takeBytes 8
    let time ← takeU64
    let cpu ← takeU64
    return (tidOf tids, time, cpu.toUInt32)

/-- The number of lost records. -/
def readLost (bytes : List UInt8) : Except String UInt64 :=
  StateT.run' (m := Except String) (s := bytes) do
    let _ ← takeU64
    takeU64

/-! ## Records -/

def perfRecordLost : UInt32 := 2
def perfRecordThrottle : UInt32 := 5
def perfRecordUnthrottle : UInt32 := 6
def perfRecordSample : UInt32 := 9
def perfRecordSwitch : UInt32 := 14

def switchOut : UInt16 := 0x2000
def switchOutPreempt : UInt16 := 0x4000

def perfEventHeaderSize : ℕ := 8

/-- What a drain has found. -/
structure Progress where
  pending : Option RawSample
  lost : UInt64
  latest : Option RawSample

/-- The pending sample as the one of a switch, if it is. -/
def classify (pending : Option RawSample) (misc : UInt16) (tid : Int32) (time : UInt64)
    (cpu : UInt32) : Option RawSample := do
  let sample ← pending
  if misc &&& switchOut ≠ 0 ∧ sample.tid = tid ∧ sample.timeNs ≤ time ∧ sample.cpu = some cpu then
    some { sample with source := .contextSwitch (misc &&& switchOutPreempt ≠ 0) }
  else none

def handleRecord [Target] (contextSwitch : Bool) (kind : UInt32) (misc : UInt16)
    (bytes : List UInt8) (progress : Progress) : Except String Progress :=
  if kind = perfRecordSample then do
    let sample ← parsePerfSample bytes
    if contextSwitch then return { progress with pending := sample }
    else return { progress with latest := sample.or progress.latest }
  else if kind = perfRecordSwitch ∧ contextSwitch then do
    -- A switch-in, a missing sample or a loss must never classify an old sample.
    let (tid, time, cpu) ← readSwitch bytes
    return { progress with
      pending := none
      latest := (classify progress.pending misc tid time cpu).or progress.latest }
  else if (kind = perfRecordThrottle ∨ kind = perfRecordUnthrottle) ∧ contextSwitch then
    return { progress with pending := none }
  else if kind = perfRecordLost then do
    let lost ← readLost bytes
    return { progress with pending := none, lost := saturatingAdd progress.lost lost }
  else return progress

/-! ## The ring -/

structure PerfEventReader where
  capacity : UInt64
  capacity_pos : 0 < capacity
  contextSwitch : Bool
  tail : UInt64
  lost : UInt64
  pending : Option RawSample

namespace PerfEventReader

/-- The bytes from a position on. -/
def copy (capacity : UInt64) (ring : ℕ → UInt8) (position : UInt64) (length : ℕ) : List UInt8 :=
  (List.range length).map fun i => ring ((position + .ofNat i) % capacity).toNat

/-- Handles the record at a position: the next position, and what has been found with it. -/
def drainRecord [Target] (reader : PerfEventReader) (ring : ℕ → UInt8) (head tail : UInt64)
    (progress : Progress) : Except String (UInt64 × Progress) :=
  if (head - tail).toNat < perfEventHeaderSize then .error "truncated perf header"
  else
    let header := copy reader.capacity ring tail perfEventHeaderSize
    let kind := UInt32.ofNat (leValue (header.take 4))
    let size := leValue ((header.drop 6).take 2)
    if size < perfEventHeaderSize ∨ reader.capacity.toNat < size ∨ (head - tail).toNat < size then
      .error "invalid perf record size"
    else do
      let bytes := copy reader.capacity ring (tail + .ofNat perfEventHeaderSize)
        (size - perfEventHeaderSize)
      let misc := UInt16.ofNat (leValue ((header.drop 4).take 2))
      let progress ← handleRecord reader.contextSwitch kind misc bytes progress
      return (tail + .ofNat size, progress)

/-- What is left behind the first bytes of what is before the head. -/
theorem toNat_sub_add {head tail : UInt64} {n : ℕ} (h : n ≤ (head - tail).toNat) :
    (head - (tail + .ofNat n)).toNat = (head - tail).toNat - n := by
  have hn : (UInt64.ofNat n).toNat = n :=
    UInt64.toNat_ofNat_of_lt' (Nat.lt_of_le_of_lt h (head - tail).toNat_lt)
  have htail := tail.toNat_lt
  have hhead := head.toNat_lt
  rw [UInt64.toNat_sub] at h ⊢
  rw [UInt64.toNat_add, hn, UInt64.toNat_sub]
  omega

/-- A record that is handled takes a header at least, and ends at the head or before it. -/
theorem exists_of_drainRecord [Target] {reader : PerfEventReader} {ring : ℕ → UInt8}
    {head tail : UInt64} {progress : Progress} {next : UInt64 × Progress}
    (h : reader.drainRecord ring head tail progress = .ok next) :
    ∃ size, perfEventHeaderSize ≤ size ∧ size ≤ (head - tail).toNat ∧ next.1 = tail + .ofNat size := by
  unfold drainRecord at h
  split at h
  · cases h
  · dsimp only at h
    split at h
    · cases h
    · next hsize =>
      obtain ⟨hheader, -, hhead⟩ : perfEventHeaderSize ≤ _ ∧ _ ≤ reader.capacity.toNat ∧
          _ ≤ (head - tail).toNat := by
        simpa only [not_or, not_lt] using hsize
      obtain ⟨progress', -, h⟩ := exists_of_bind_eq_ok h
      exact ⟨_, hheader, hhead, (Prod.mk.inj (Except.ok.inj h)).1.symm⟩

theorem sub_lt_of_drainRecord [Target] {reader : PerfEventReader} {ring : ℕ → UInt8}
    {head tail : UInt64} {progress : Progress} {next : UInt64 × Progress}
    (h : reader.drainRecord ring head tail progress = .ok next) :
    (head - next.1).toNat < (head - tail).toNat := by
  obtain ⟨size, hheader, hhead, hnext⟩ := exists_of_drainRecord h
  rw [hnext, toNat_sub_add hhead]
  unfold perfEventHeaderSize at hheader
  omega

/-- Handles records up to the head, or up to one that cannot be handled: the position of what is left,
what has been found, and the error. -/
def drainRecords [Target] (reader : PerfEventReader) (ring : ℕ → UInt8) (head tail : UInt64)
    (progress : Progress) : UInt64 × Progress × Option String :=
  if tail = head then (tail, progress, none)
  else
    match _hnext : reader.drainRecord ring head tail progress with
    | .error e => (tail, progress, some e)
    | .ok next => reader.drainRecords ring head next.1 next.2
termination_by (head - tail).toNat
decreasing_by exact sub_lt_of_drainRecord _hnext

/-- Reads what is in the ring: the last sample, if there is one. -/
def drain [Target] (reader : PerfEventReader) (ring : ℕ → UInt8) (head : UInt64) :
    PerfEventReader × Except String (Option RawSample) :=
  let progress := ⟨reader.pending, reader.lost, none⟩
  let (tail, progress, error) :=
    if head - reader.tail ≤ reader.capacity then
      reader.drainRecords ring head reader.tail progress
    else (reader.tail, progress, some "perf ring overrun")
  match error with
  | none =>
    ({ reader with tail := tail, lost := progress.lost, pending := progress.pending },
      .ok progress.latest)
  | some e =>
    -- What the failed record has changed of the position and the pending sample is replaced.
    ({ reader with tail := head, lost := saturatingAdd progress.lost 1, pending := none }, .error e)

end PerfEventReader

end Procinsh.Sampling
