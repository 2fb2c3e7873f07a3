import Procinsh.Sampling.Perf

/-!
# Records in the ring

A record is a header with its kind, flags and size, and a payload.  Where the ring holds the bytes of
records, wherever they begin and whether they wrap around, `drain` handles these records; whatever the
ring holds, it has handled some records when it fails.
-/

namespace Procinsh.Sampling

/-- A record as the kernel writes it. -/
structure PerfRecord where
  kind : UInt32
  misc : UInt16
  payload : List UInt8
  size_lt : perfEventHeaderSize + payload.length < 2 ^ 16

namespace PerfRecord

def size (r : PerfRecord) : ℕ := perfEventHeaderSize + r.payload.length

def header (r : PerfRecord) : List UInt8 :=
  leBytes 4 r.kind.toNat ++ (leBytes 2 r.misc.toNat ++ leBytes 2 r.size)

def bytes (r : PerfRecord) : List UInt8 := r.header ++ r.payload

/-- The bytes of records. -/
def allBytes (records : List PerfRecord) : List UInt8 := records.flatMap bytes

@[simp] theorem length_header (r : PerfRecord) : r.header.length = perfEventHeaderSize := by
  rw [header, List.length_append, List.length_append, length_leBytes, length_leBytes, length_leBytes]
  rfl

theorem length_bytes (r : PerfRecord) : r.bytes.length = r.size := by
  rw [bytes, List.length_append, length_header]
  rfl

/-- The fields of a header. -/
theorem fields_header (r : PerfRecord) :
    UInt32.ofNat (leValue (r.header.take 4)) = r.kind ∧
      UInt16.ofNat (leValue ((r.header.drop 4).take 2)) = r.misc ∧
        leValue ((r.header.drop 6).take 2) = r.size := by
  have hkind : r.header.take 4 = leBytes 4 r.kind.toNat := List.take_left' (length_leBytes 4 _)
  have hmisc : (r.header.drop 4).take 2 = leBytes 2 r.misc.toNat := by
    rw [header, List.drop_left' (length_leBytes 4 _), List.take_left' (length_leBytes 2 _)]
  have hsize : (r.header.drop 6).take 2 = leBytes 2 r.size := by
    rw [header, ← List.append_assoc, List.drop_left' (by
      rw [List.length_append, length_leBytes, length_leBytes]),
      List.take_of_length_le (length_leBytes 2 _).le]
  rw [hkind, hmisc, hsize, leValue_leBytes_of_lt r.kind.toNat_lt,
    leValue_leBytes_of_lt r.misc.toNat_lt, leValue_leBytes_of_lt r.size_lt, UInt32.ofNat_toNat,
    UInt16.ofNat_toNat]
  exact ⟨rfl, rfl, rfl⟩

/-- Every header is that of a record, as far as its size is one. -/
theorem header_eq {l payload : List UInt8} (hl : l.length = perfEventHeaderSize)
    (hsize : leValue ((l.drop 6).take 2) = perfEventHeaderSize + payload.length)
    (hlt : perfEventHeaderSize + payload.length < 2 ^ 16) :
    (⟨.ofNat (leValue (l.take 4)), .ofNat (leValue ((l.drop 4).take 2)), payload, hlt⟩ :
      PerfRecord).header = l := by
  unfold perfEventHeaderSize at hl
  have hfield (x : List UInt8) (n : ℕ) (hx : x.length = n) : leBytes n (leValue x) = x :=
    hx ▸ leBytes_leValue x
  have hkind : (l.take 4).length = 4 := by
    rw [List.length_take]
    omega
  have hmisc : ((l.drop 4).take 2).length = 2 := by
    rw [List.length_take, List.length_drop]
    omega
  have hlast : ((l.drop 6).take 2).length = 2 := by
    rw [List.length_take, List.length_drop]
    omega
  have hkindlt : leValue (l.take 4) < 2 ^ 32 := leValue_take_lt _ 4
  have hmisclt : leValue ((l.drop 4).take 2) < 2 ^ 16 := leValue_take_lt _ 2
  unfold header size
  dsimp only
  rw [UInt32.toNat_ofNat_of_lt' hkindlt, UInt16.toNat_ofNat_of_lt' hmisclt, ← hsize,
    hfield _ 4 hkind, hfield _ 2 hmisc, hfield _ 2 hlast]
  have hdrop : l.drop 6 = (l.drop 4).drop 2 := by rw [List.drop_drop]
  have hrest : (l.drop 6).take 2 = l.drop 6 := List.take_of_length_le (by
    rw [List.length_drop]
    omega)
  rw [hrest, hdrop, List.take_append_drop, List.take_append_drop]

theorem le_size (r : PerfRecord) : perfEventHeaderSize ≤ r.size := Nat.le_add_right _ _

/-- Handles records in their order. -/
def handleAll [Ipc.Target] (contextSwitch : Bool) (records : List PerfRecord)
    (progress : Progress) : Except String Progress :=
  records.foldlM (fun progress r => handleRecord contextSwitch r.kind r.misc r.payload progress)
    progress

theorem handleAll_cons [Ipc.Target] (contextSwitch : Bool) (r : PerfRecord)
    (records : List PerfRecord) (progress : Progress) :
    handleAll contextSwitch (r :: records) progress =
      handleRecord contextSwitch r.kind r.misc r.payload progress >>=
        handleAll contextSwitch records := List.foldlM_cons

end PerfRecord

namespace PerfEventReader

/-! ## Bytes in the ring -/

section Copy

variable {capacity : UInt64} {ring : ℕ → UInt8}

@[simp] theorem length_copy (position : UInt64) (n : ℕ) :
    (copy capacity ring position n).length = n := by
  rw [copy, List.length_map, List.length_range]

/-- Bytes are followed by those at the position behind them. -/
theorem copy_add (position : UInt64) (m n : ℕ) : copy capacity ring position (m + n) =
    copy capacity ring position m ++ copy capacity ring (position + .ofNat m) n := by
  unfold copy
  rw [List.range_add, List.map_append, List.map_map]
  refine congrArg _ (List.map_congr_left fun i _ => ?_)
  rw [Function.comp_apply, UInt64.ofNat_add, add_assoc]

/-- The ring has the bytes at a position. -/
def Holds (capacity : UInt64) (ring : ℕ → UInt8) (position : UInt64) (bytes : List UInt8) : Prop :=
  copy capacity ring position bytes.length = bytes

theorem holds_append {position : UInt64} {x y : List UInt8} :
    Holds capacity ring position (x ++ y) ↔
      Holds capacity ring position x ∧ Holds capacity ring (position + .ofNat x.length) y := by
  unfold Holds
  rw [List.length_append, copy_add]
  constructor
  · exact fun h => List.append_inj h (length_copy _ _)
  · rintro ⟨hx, hy⟩
    rw [hx, hy]

end Copy

/-! ## One record -/

section Records

variable [Ipc.Target] {reader : PerfEventReader} {ring : ℕ → UInt8} {head tail : UInt64}
  {progress : Progress}

/-- A record that the ring holds before the head is handled. -/
theorem drainRecord_of_holds {r : PerfRecord} (h : Holds reader.capacity ring tail r.bytes)
    (hcapacity : r.size ≤ reader.capacity.toNat) (hhead : r.size ≤ (head - tail).toNat) :
    reader.drainRecord ring head tail progress =
      (handleRecord reader.contextSwitch r.kind r.misc r.payload progress).map
        fun progress => (tail + .ofNat r.size, progress) := by
  obtain ⟨hheader, hpayload⟩ := holds_append.mp h
  rw [PerfRecord.length_header] at hpayload
  unfold Holds at hheader hpayload
  rw [PerfRecord.length_header] at hheader
  obtain ⟨hkind, hmisc, hsize⟩ := r.fields_header
  have hlong := r.le_size
  unfold drainRecord
  rw [if_neg (by omega)]
  dsimp only
  rw [hheader, hkind, hmisc, hsize, if_neg (by omega)]
  have hlength : r.size - perfEventHeaderSize = r.payload.length := by
    rw [PerfRecord.size, Nat.add_sub_cancel_left]
  rw [hlength, hpayload]
  rfl

/-- What has been handled was a record. -/
theorem exists_record {next : UInt64 × Progress}
    (h : reader.drainRecord ring head tail progress = .ok next) :
    ∃ r : PerfRecord, Holds reader.capacity ring tail r.bytes ∧ r.size ≤ (head - tail).toNat ∧
      handleRecord reader.contextSwitch r.kind r.misc r.payload progress = .ok next.2 ∧
      next.1 = tail + .ofNat r.size := by
  unfold drainRecord at h
  split at h
  · cases h
  · dsimp only at h
    split at h
    · cases h
    · next hsize =>
      obtain ⟨progress', hhandle, h⟩ := exists_of_bind_eq_ok h
      obtain rfl := Except.ok.inj h
      have hheaderLength : (copy reader.capacity ring tail perfEventHeaderSize).length = _ :=
        length_copy tail perfEventHeaderSize
      generalize hheader : copy reader.capacity ring tail perfEventHeaderSize = header
        at hsize hhandle hheaderLength ⊢
      have hlt : leValue ((header.drop 6).take 2) < 2 ^ 16 := leValue_take_lt _ 2
      generalize hlength : leValue ((header.drop 6).take 2) = size at hsize hhandle hlt ⊢
      generalize hpayload : copy reader.capacity ring (tail + .ofNat perfEventHeaderSize)
        (size - perfEventHeaderSize) = payload at hhandle ⊢
      have hpayloadLength : payload.length = size - perfEventHeaderSize := by
        rw [← hpayload, length_copy]
      have hsum : size = perfEventHeaderSize + payload.length := by omega
      let r : PerfRecord := ⟨.ofNat (leValue (header.take 4)),
        .ofNat (leValue ((header.drop 4).take 2)), payload, hsum ▸ hlt⟩
      have hr : r.header = header := PerfRecord.header_eq hheaderLength (hlength.trans hsum) _
      refine ⟨r, holds_append.mpr ⟨?_, ?_⟩, ?_, hhandle, ?_⟩
      · rw [hr, Holds, hheaderLength, hheader]
      · rw [PerfRecord.length_header, Holds]
        exact hpayloadLength ▸ hpayload
      · change perfEventHeaderSize + payload.length ≤ _
        omega
      · exact congrArg (fun n => tail + UInt64.ofNat n) hsum

/-! ## All records -/

theorem drainRecords_of_holds {records : List PerfRecord} {result : Progress}
    (h : Holds reader.capacity ring tail (PerfRecord.allBytes records))
    (hcapacity : (PerfRecord.allBytes records).length ≤ reader.capacity.toNat)
    (hhead : (head - tail).toNat = (PerfRecord.allBytes records).length)
    (hall : PerfRecord.handleAll reader.contextSwitch records progress = .ok result) :
    reader.drainRecords ring head tail progress = (head, result, none) := by
  induction records generalizing tail progress with
  | nil =>
    obtain rfl := Except.ok.inj hall
    have htail : tail = head := by
      have hzero : head - tail = 0 := UInt64.toNat_inj.mp hhead
      exact (sub_eq_zero.mp hzero).symm
    rw [drainRecords, if_pos htail, htail]
  | cons r records ih =>
    rw [PerfRecord.allBytes, List.flatMap_cons] at h hcapacity hhead
    rw [List.length_append, PerfRecord.length_bytes] at hcapacity hhead
    obtain ⟨hrecord, hrest⟩ := holds_append.mp h
    rw [PerfRecord.length_bytes] at hrest
    rw [PerfRecord.handleAll_cons] at hall
    obtain ⟨next, hnext, hall⟩ := exists_of_bind_eq_ok hall
    have hlong := r.le_size
    have hne : tail ≠ head := by
      rintro rfl
      rw [sub_self, UInt64.toNat_zero] at hhead
      unfold perfEventHeaderSize at hlong
      omega
    have hin : r.size ≤ (head - tail).toNat := by omega
    have hdrain : reader.drainRecord ring head tail progress = _ :=
      drainRecord_of_holds hrecord (by omega) hin
    rw [hnext] at hdrain
    rw [drainRecords, if_neg hne]
    split
    · next e he =>
      rw [hdrain] at he
      cases he
    · next step hstep =>
      rw [hdrain] at hstep
      obtain rfl := Except.ok.inj hstep
      refine ih hrest (Nat.le_trans (Nat.le_add_left _ _) hcapacity) ?_ hall
      rw [toNat_sub_add hin, hhead, Nat.add_sub_cancel_left]
      rfl

/-- Records are handled up to the head, or up to a record that fails. -/
theorem drainRecords_spec (reader : PerfEventReader) (ring : ℕ → UInt8) (head tail : UInt64)
    (progress : Progress) : ∃ records,
      Holds reader.capacity ring tail (PerfRecord.allBytes records) ∧
      PerfRecord.handleAll reader.contextSwitch records progress =
        .ok (reader.drainRecords ring head tail progress).2.1 ∧
      ((reader.drainRecords ring head tail progress).2.2 = none →
        (reader.drainRecords ring head tail progress).1 = head) := by
  induction hleft : (head - tail).toNat using Nat.strong_induction_on
    generalizing tail progress with
  | h left ih =>
    rw [drainRecords]
    split
    · next htail => exact ⟨[], rfl, rfl, fun _ => htail⟩
    · split
      · next e he => exact ⟨[], rfl, rfl, fun hnone => by cases hnone⟩
      · next next hnext =>
        obtain ⟨r, hr, -, hhandle, hposition⟩ := exists_record hnext
        have hlt := sub_lt_of_drainRecord hnext
        obtain ⟨records, hrecords, hall, hhead⟩ := ih _ (hleft ▸ hlt) next.1 next.2 rfl
        refine ⟨r :: records, ?_, ?_, hhead⟩
        · rw [PerfRecord.allBytes, List.flatMap_cons]
          refine holds_append.mpr ⟨hr, ?_⟩
          rw [PerfRecord.length_bytes, ← hposition]
          exact hrecords
        · rw [PerfRecord.handleAll_cons, hhandle]
          exact hall

end Records

end PerfEventReader

end Procinsh.Sampling
