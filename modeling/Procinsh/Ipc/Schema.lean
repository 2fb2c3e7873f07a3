import Procinsh.Ipc.Acquisition

/-!
# The wire schema

The types that cross the helper connection: the requests, the replies, the identity of the helper
and every type in them.  The values of most of them cross unchanged.  A register set is sent only if
it has the native number of registers, a part of a file is accepted only up to a size, and a live
sample is received without its context.
-/

namespace Procinsh.Ipc

/-! ## Parts of files -/

/-- A field that crosses unchanged, before others. -/
lemma WireLaws.consExact {α β : Type} [Wire α] [Wire β] [LawfulWire α] {u : Transfer β}
    (h : WireLaws β u) : WireLaws (α × β) (Transfer.exact.prod u) :=
  WireLaws.prod LawfulWire.laws h.fields

/-- Parts of files are accepted up to a size. -/
def FileChunk.transfer : Transfer FileChunk where
  received := id
  Sendable _ := True
  Accepted v := v.bytes.length ≤ maxReadSize

/-- The last check of a part of a file. -/
lemma FileChunk.check_eq_ok {offset : UInt64} {bytes : List UInt8} {v : FileChunk}
    {input rest : Decoder} :
    (if bytes.length ≤ maxReadSize then return ⟨offset, bytes⟩
      else throw "mapped file read exceeds limit" : Reader FileChunk) input = .ok (v, rest) ↔
      bytes.length ≤ maxReadSize ∧ ⟨offset, bytes⟩ = v ∧ input = rest := by
  split
  · next h => exact reader_pure_eq_ok.trans (and_iff_right h).symm
  · next h => exact iff_of_false not_reader_throw_eq_ok fun hok => h hok.1

lemma wireLaws_fileChunk : WireLaws FileChunk FileChunk.transfer := by
  have h := LawfulWire.laws (α := UInt64)
  refine ⟨fun v => ?_, h.isLocal.bind fun offset => local_readBlob.bind fun bytes => ?_⟩
  · obtain ⟨x, hne, hx⟩ := h.encoding v.offset
    refine ⟨x ++ (leBytes 4 v.bytes.length ++ v.bytes),
      List.append_ne_nil_of_left_ne_nil hne _, fun _ => ?_, fun hsend => absurd trivial hsend,
      fun input rest hok => ?_⟩
    · have hblob : Carries (writeBlob v.bytes) (do
          let bytes ← readBlob
          if bytes.length ≤ maxReadSize then return ⟨v.offset, bytes⟩
          else throw "mapped file read exceeds limit")
          (leBytes 4 v.bytes.length ++ v.bytes) (v.bytes.length ≤ maxReadSize) v := by
        refine (carries_blob v.bytes).imp (And.imp_right fun hreads hsize rest => ?_) id
        rw [reader_bind_ok (hreads trivial rest)]
        exact FileChunk.check_eq_ok.mpr ⟨hsize, rfl, rfl⟩
      exact ((hx.carries trivial).bind hblob).mono fun hsize => ⟨trivial, hsize⟩
    · obtain ⟨offset, mid, hoffset, hrest⟩ := reader_bind_eq_ok.mp hok
      obtain ⟨bytes, last, hblob, hcheck⟩ := reader_bind_eq_ok.mp hrest
      obtain ⟨hsize, rfl, rfl⟩ := FileChunk.check_eq_ok.mp hcheck
      refine ⟨?_, trivial, hsize, rfl⟩
      rw [(hx.only input mid hoffset).1, readBlob_eq_ok hblob, List.append_assoc x]
  · exact (local_pure _).ite (local_throw _)

/-- Files are accepted when their parts are. -/
def MappedFileData.transfer : Transfer MappedFileData where
  received := id
  Sendable _ := True
  Accepted v := ∀ c ∈ v.chunks, c.bytes.length ≤ maxReadSize

lemma wireLaws_mappedFileData : WireLaws MappedFileData MappedFileData.transfer := by
  have h := (LawfulWire.laws (α := ElfFileId)).prod wireLaws_fileChunk.list.fields
  refine WireLaws.struct h (fun v => ?_) (fun _ => rfl) (fun v => ?_) fun v => ?_
  · exact congrArg (MappedFileData.mk v.identity) (List.map_id _)
  · exact iff_of_true trivial ⟨trivial, fun _ _ => trivial⟩
  · exact (and_iff_right trivial).symm

/-! ## Register sets -/

section Target

variable [Target]

/-- Register sets are sent when they have the native number of registers. -/
def RegisterSet.transfer : Transfer RegisterSet where
  received := id
  Sendable v := v.values.length = count
  Accepted _ := True

/-- A register set without validation. -/
def RegisterSet.fields (v : RegisterSet) : List UInt64 × Bool × Option UInt64 :=
  (v.values, v.flagsAvailable, v.codePacMask)

lemma RegisterSet.validate_eq_ok {v : RegisterSet} :
    v.validate = .ok () ↔ v.values.length = count := by
  unfold validate
  split
  · next h => exact iff_of_true rfl h
  · next h => exact iff_of_false (fun hok => by cases hok) h

lemma RegisterSet.write_eq (v : RegisterSet) :
    (write v : Writer) = (liftM v.validate >>= fun _ => write v.fields) := rfl

/-- A register set is read as its fields, then checked. -/
lemma RegisterSet.read_eq : (read : Reader RegisterSet) = (do
    let fs : List UInt64 × Bool × Option UInt64 ← read
    let result : RegisterSet := ⟨fs.1, fs.2.1, fs.2.2⟩
    (result.validate : Except String Unit)
    return result) := by
  simp only [read, bind_assoc, pure_bind]

lemma RegisterSet.check_eq_ok {v w : RegisterSet} {input rest : Decoder} :
    (do
      (v.validate : Except String Unit)
      return v : Reader RegisterSet) input = .ok (w, rest) ↔
        v.values.length = count ∧ v = w ∧ input = rest := by
  rw [← validate_eq_ok]
  cases v.validate with
  | error e => exact iff_of_false (fun h => by cases h) fun h => by cases h.1
  | ok u => exact reader_pure_eq_ok.trans (and_iff_right rfl).symm

lemma wireLaws_registerSet : WireLaws RegisterSet RegisterSet.transfer := by
  have h := LawfulWire.laws (α := List UInt64 × Bool × Option UInt64)
  refine ⟨fun v => ?_, ?_⟩
  · obtain ⟨x, hne, hx⟩ := h.encoding v.fields
    refine ⟨x, hne, fun hsend => ?_, fun hsend output _ => ?_, fun input rest hok => ?_⟩
    · have hwrite : (write v : Writer) = write v.fields := by
        rw [RegisterSet.write_eq, RegisterSet.validate_eq_ok.mpr hsend]
        rfl
      rw [hwrite]
      refine (hx.carries trivial).imp (And.imp_right fun hreads _ rest => ?_) id
      rw [RegisterSet.read_eq, reader_bind_ok (hreads trivial rest)]
      exact RegisterSet.check_eq_ok.mpr ⟨hsend, rfl, rfl⟩
    · rw [RegisterSet.write_eq]
      cases hvalid : v.validate with
      | error e => exact ⟨e, rfl⟩
      | ok u => exact absurd (RegisterSet.validate_eq_ok.mp hvalid) hsend
    · rw [RegisterSet.read_eq] at hok
      obtain ⟨fs, mid, hfs, hcheck⟩ := reader_bind_eq_ok.mp hok
      obtain ⟨hcount, rfl, rfl⟩ := RegisterSet.check_eq_ok.mp hcheck
      exact ⟨(hx.only input mid hfs).1, hcount, trivial, rfl⟩
  · rw [RegisterSet.read_eq]
    refine h.isLocal.bind fun fs input rest v hok more => ?_
    obtain ⟨hcount, rfl, rfl⟩ := RegisterSet.check_eq_ok.mp hok
    exact RegisterSet.check_eq_ok.mpr ⟨hcount, rfl, rfl⟩

/-! ## Live samples -/

/-- Live samples are received without their context. -/
def LiveSample.transfer : Transfer LiveSample where
  received v := { v with context := none }
  Sendable v := ∀ r ∈ v.rawRegisters, r.values.length = RegisterSet.count
  Accepted _ := True

lemma wireLaws_liveSample : WireLaws LiveSample LiveSample.transfer := by
  have hrest := wireLaws_registerSet.option.prod (LawfulFields.laws
    (α := List UInt8 × Option UInt64 × List StackFrame × Option InstructionBytes × String ×
      Option String))
  have h : WireLaws (Int32 × Option (List.Vector UInt8 20) × Option UInt64 × Option UInt64 ×
      Option UInt64 × Option UInt32 × UInt64 × List Register × _) _ :=
    hrest.consExact.consExact.consExact.consExact.consExact.consExact.consExact.consExact
  refine WireLaws.struct h (fun v => ?_) (fun _ => rfl) (fun v => ?_) fun v => ?_
  · simp [Transfer.prod, Transfer.option, Transfer.exact, RegisterSet.transfer, LiveSample.transfer]
  · simp [Transfer.prod, Transfer.option, Transfer.exact, RegisterSet.transfer, LiveSample.transfer]
  · simp [Transfer.prod, Transfer.option, Transfer.exact, RegisterSet.transfer, LiveSample.transfer]

/-- What becomes of an observed process is what becomes of its live samples. -/
def ProcessDetailSnapshot.transfer : Transfer ProcessDetailSnapshot where
  received v := { v with liveSamples := v.liveSamples.map LiveSample.transfer.received }
  Sendable v := ∀ s ∈ v.liveSamples, LiveSample.transfer.Sendable s
  Accepted _ := True

lemma wireLaws_processDetailSnapshot :
    WireLaws ProcessDetailSnapshot ProcessDetailSnapshot.transfer := by
  have hrest := wireLaws_liveSample.list.prod (LawfulFields.laws
    (α := List MappingSnapshot × Option String))
  have h : WireLaws (ProcessSummary × Bool × Option String × ProcessSample × List SmapsEntry ×
      Option String × Option UInt64 × Option MemoryRollup × _) _ :=
    hrest.consExact.consExact.consExact.consExact.consExact.consExact.consExact.consExact
  have haccept : ∀ s, LiveSample.transfer.Accepted s := fun _ => trivial
  refine WireLaws.struct h (fun v => ?_) (fun _ => rfl) (fun v => ?_) fun v => ?_
  · simp [Transfer.prod, Transfer.list, Transfer.exact, ProcessDetailSnapshot.transfer]
  · simp [Transfer.prod, Transfer.list, Transfer.exact, ProcessDetailSnapshot.transfer]
  · simp [Transfer.prod, Transfer.list, Transfer.exact, ProcessDetailSnapshot.transfer, haccept]

/-! ## Replies -/

/-- What becomes of an event is what becomes of the observed process. -/
def MonitorEvent.transfer : Transfer MonitorEvent where
  received
    | .observation value => .observation (ProcessDetailSnapshot.transfer.received value)
    | v => v
  Sendable
    | .observation value => ProcessDetailSnapshot.transfer.Sendable value
    | _ => True
  Accepted _ := True

lemma wireLaws_monitorEvent : WireLaws MonitorEvent MonitorEvent.transfer := by
  have htags : ([0, 1, 2, 3] : List UInt8).Nodup := by decide
  refine WireLaws.enum ⟨htags, by intro v; cases v <;> rfl⟩ ?_
  refine List.forall_mem_cons.mpr ⟨?_, List.forall_mem_cons.mpr ⟨?_, List.forall_mem_cons.mpr ⟨?_,
    List.forall_mem_cons.mpr ⟨?_, fun _ h => absurd h List.not_mem_nil⟩⟩⟩⟩
  · exact ⟨_, wireLaws_processDetailSnapshot.fields, fun _ => rfl, fun _ => Iff.rfl,
      fun _ => Iff.rfl⟩
  · exact ⟨.exact, LawfulFields.laws, fun _ => rfl, fun _ => Iff.rfl, fun _ => Iff.rfl⟩
  · exact ⟨.exact, LawfulFields.laws, fun _ => rfl, fun _ => Iff.rfl, fun _ => Iff.rfl⟩
  · exact ⟨.exact, LawfulFields.laws, fun _ => rfl, fun _ => Iff.rfl, fun _ => Iff.rfl⟩

/-- What becomes of a reply is what becomes of its event or its file. -/
def MonitorResponse.transfer : Transfer MonitorResponse where
  received
    | .started session initial => .started session (MonitorEvent.transfer.received initial)
    | .event next isClosed => .event (next.map MonitorEvent.transfer.received) isClosed
    | v => v
  Sendable
    | .started _ initial => MonitorEvent.transfer.Sendable initial
    | .event next _ => ∀ e ∈ next, MonitorEvent.transfer.Sendable e
    | _ => True
  Accepted
    | .elf file => ∀ f ∈ file, MappedFileData.transfer.Accepted f
    | _ => True

lemma wireLaws_monitorResponse : WireLaws MonitorResponse MonitorResponse.transfer := by
  have htags : ([0, 1, 3, 4, 5] : List UInt8).Nodup := by decide
  refine WireLaws.enum ⟨htags, by intro v; cases v <;> rfl⟩ ?_
  refine List.forall_mem_cons.mpr ⟨?_, List.forall_mem_cons.mpr ⟨?_, List.forall_mem_cons.mpr ⟨?_,
    List.forall_mem_cons.mpr ⟨?_, List.forall_mem_cons.mpr ⟨?_,
      fun _ h => absurd h List.not_mem_nil⟩⟩⟩⟩⟩
  · exact ⟨.exact, LawfulFields.laws, fun _ => rfl, fun _ => Iff.rfl, fun _ => Iff.rfl⟩
  · refine ⟨_, wireLaws_mappedFileData.option.fields, fun file => ?_, fun _ => ?_, fun _ => Iff.rfl⟩
    · exact congrArg MonitorResponse.elf (congrFun Option.map_id file).symm
    · exact iff_of_true trivial fun _ _ => trivial
  · refine ⟨_, wireLaws_monitorEvent.consExact.fields, fun _ => rfl, fun _ => ?_, fun _ => ?_⟩
    · exact (and_iff_right trivial).symm
    · exact iff_of_true trivial ⟨trivial, trivial⟩
  · refine ⟨_, (wireLaws_monitorEvent.option.prod LawfulFields.laws).fields, fun _ => rfl,
      fun _ => ?_, fun _ => ?_⟩
    · exact (and_iff_left trivial).symm
    · exact iff_of_true trivial ⟨fun _ _ => trivial, trivial⟩
  · exact ⟨.exact, LawfulFields.laws, fun _ => rfl, fun _ => Iff.rfl, fun _ => Iff.rfl⟩

end Target

/-! ## The types of the schema -/

/-- The types whose values cross unchanged, whatever the architecture. -/
inductive Plain : (α : Type) → [Wire α] → Prop
  | uint8 : Plain UInt8
  | uint16 : Plain UInt16
  | uint32 : Plain UInt32
  | uint64 : Plain UInt64
  | int32 : Plain Int32
  | int64 : Plain Int64
  | f64 : Plain F64
  | bool : Plain Bool
  | string : Plain String
  | ipAddr : Plain IpAddr
  | socketAddr : Plain SocketAddr
  | processId : Plain ProcessId
  | processResource : Plain ProcessResource
  | fileRange : Plain FileRange
  | monitorRequest : Plain MonitorRequest
  | helperIdentity : Plain HelperIdentity
  | deviceId : Plain DeviceId
  | ipcKind : Plain IpcKind
  | ipcIdentity : Plain IpcIdentity
  | fileIdentity : Plain FileIdentity
  | memoryKind : Plain MemoryKind
  | memoryMap : Plain MemoryMap
  | smapsEntry : Plain SmapsEntry
  | mappingSnapshot : Plain MappingSnapshot
  | schedulerPolicy : Plain SchedulerPolicy
  | cpuRange : Plain CpuRange
  | threadObservation : Plain ThreadObservation
  | threadSample : Plain ThreadSample
  | ioStats : Plain IoStats
  | rates : Plain Rates
  | processObservation : Plain ProcessObservation
  | processSample : Plain ProcessSample
  | historyPoint : Plain HistoryPoint
  | sourceFrame : Plain SourceFrame
  | stackFrame : Plain StackFrame
  | registerRole : Plain RegisterRole
  | registerMapping : Plain RegisterMapping
  | register : Plain Register
  | addressFamily : Plain AddressFamily
  | socketType : Plain SocketType
  | socketProtocol : Plain SocketProtocol
  | socketConnectionStatus : Plain SocketConnectionStatus
  | socketState : Plain SocketState
  | fdKind : Plain FdKind
  | fdAccess : Plain FdAccess
  | inetAddress : Plain InetAddress
  | socketInfo : Plain SocketInfo
  | key : Plain Key
  | endpoint : Plain Endpoint
  | owner : Plain Owner
  | fileDescriptorInfo : Plain FileDescriptorInfo
  | fileDescriptors : Plain FileDescriptors
  | barInfo : Plain BarInfo
  | pcieLink : Plain PcieLink
  | pcieLinkInfo : Plain PcieLinkInfo
  | hardwareKind : Plain HardwareKind
  | hardwareRole : Plain HardwareRole
  | rdmaDeviceInfo : Plain RdmaDeviceInfo
  | gpuInfo : Plain GpuInfo
  | hardwareDevice : Plain HardwareDevice
  | deviceHandleKind : Plain DeviceHandleKind
  | deviceHandle : Plain DeviceHandle
  | pathClass : Plain PathClass
  | hardwarePath : Plain HardwarePath
  | hardwareFiles : Plain HardwareFiles
  | rdmaQpType : Plain RdmaQpType
  | rdmaQpState : Plain RdmaQpState
  | rdmaCmState : Plain RdmaCmState
  | rdmaPortSpace : Plain RdmaPortSpace
  | ibGid : Plain IbGid
  | rdmaAddress : Plain RdmaAddress
  | rdmaPortInfo : Plain RdmaPortInfo
  | rdmaEndpointOwner : Plain RdmaEndpointOwner
  | rdmaEndpoint : Plain RdmaEndpoint
  | rdmaCmInfo : Plain RdmaCmInfo
  | rdmaRelation : Plain RdmaRelation
  | processSnapshot : Plain ProcessSnapshot
  | fdEndpoint : Plain FdEndpoint
  | socketEndpoint : Plain SocketEndpoint
  | fdRelation : Plain FdRelation
  | neighborSnapshot : Plain NeighborSnapshot
  | systemSnapshot : Plain SystemSnapshot
  | processKey : Plain ProcessKey
  | signalSample : Plain SignalSample
  | ipcEvent : Plain IpcEvent
  | fileActivity : Plain FileActivity
  | cpuCounters : Plain CpuCounters
  | rawActivity : Plain RawActivity
  | cpuActivity : Plain CpuActivity
  | ipcActivity : Plain IpcActivity
  | signalEvent : Plain SignalEvent
  | processSummary : Plain ProcessSummary
  | memoryRollup : Plain MemoryRollup
  | memoryMaps : Plain MemoryMaps
  | instructionBytes : Plain InstructionBytes
  | sampleSource : Plain SampleSource
  | sensorState : Plain SensorState
  | systemMonitorStatus : Plain SystemMonitorStatus
  | systemActivity : Plain SystemActivity
  | observationData : Plain ObservationData
  | environmentData : Plain EnvironmentData
  | auxData : Plain AuxData
  | acquiredData : Plain AcquiredData
  | list {α : Type} [Wire α] (h : Plain α) : Plain (List α)
  | array {α : Type} [Wire α] {n : ℕ} [NeZero n] (h : Plain α) : Plain (List.Vector α n)
  | option {α : Type} [Wire α] (h : Plain α) : Plain (Option α)
  | result {α ε : Type} [Wire α] [Wire ε] (h : Plain α) (he : Plain ε) : Plain (Except ε α)
  | tuple {α β : Type} [Wire α] [Wire β] (h : Plain α) (hrest : Plain β) : Plain (α × β)

/-- The types that cross the connection, with what becomes of their values. -/
inductive Schema [Target] : (α : Type) → [Wire α] → Transfer α → Prop
  | plain {α : Type} [Wire α] (h : Plain α) : Schema α .exact
  | fileChunk : Schema FileChunk FileChunk.transfer
  | mappedFileData : Schema MappedFileData MappedFileData.transfer
  | registerSet : Schema RegisterSet RegisterSet.transfer
  | liveSample : Schema LiveSample LiveSample.transfer
  | processDetailSnapshot : Schema ProcessDetailSnapshot ProcessDetailSnapshot.transfer
  | monitorEvent : Schema MonitorEvent MonitorEvent.transfer
  | monitorResponse : Schema MonitorResponse MonitorResponse.transfer
  | list {α : Type} [Wire α] {t : Transfer α} (h : Schema α t) : Schema (List α) t.list
  | option {α : Type} [Wire α] {t : Transfer α} (h : Schema α t) : Schema (Option α) t.option
  | result {α ε : Type} [Wire α] [Wire ε] {t : Transfer α} {u : Transfer ε} (h : Schema α t)
      (he : Schema ε u) : Schema (Except ε α) (t.result u)
  | tuple {α β : Type} [Wire α] [Wire β] {t : Transfer α} {u : Transfer β} (h : Schema α t)
      (hrest : Schema β u) : Schema (α × β) (t.prod u)

lemma Plain.lawful {α : Type} [Wire α] (h : Plain α) : LawfulWire α := by
  induction h with
  | list _ ih | array _ ih | option _ ih => infer_instance
  | result _ _ ih ihe => infer_instance
  | tuple _ _ ih ihrest => infer_instance
  | _ => infer_instance

/-- The laws hold of every type of the schema. -/
lemma Schema.laws [Target] {α : Type} [Wire α] {t : Transfer α} (h : Schema α t) :
    WireLaws α t := by
  induction h with
  | plain h => exact h.lawful.laws
  | fileChunk => exact wireLaws_fileChunk
  | mappedFileData => exact wireLaws_mappedFileData
  | registerSet => exact wireLaws_registerSet
  | liveSample => exact wireLaws_liveSample
  | processDetailSnapshot => exact wireLaws_processDetailSnapshot
  | monitorEvent => exact wireLaws_monitorEvent
  | monitorResponse => exact wireLaws_monitorResponse
  | list _ ih => exact ih.list
  | option _ ih => exact ih.option
  | result _ _ ih ihe => exact ih.result ihe
  | tuple _ _ ih ihrest => exact ih.prod ihrest.fields

end Procinsh.Ipc
