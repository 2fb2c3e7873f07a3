import Procinsh.Ipc.RoundTrip
import Procinsh.Sampling.Interpretation
import Procinsh.Sampling.SampleRuns

/-!
# From the sampler to the interpreted samples

Samples are sent without their mappings, only with the number, and the mappings of all samples are sent
beside them.  What the server makes of a sample that was read out of a sampler is its interpretation under
the mappings that it was accepted under, whatever mappings the other samples of the reply have and
whatever was unwound before.
-/

namespace Procinsh

open Ipc

namespace StackUnwinder

/-- The modules are in the executable mappings, as these are compared. -/
structure Fits (u : StackUnwinder) (maps : List MemoryMap) : Prop where
  mappings : u.mappings = mappingKeys maps
  unwinder : ∀ m ∈ u.unwinder, (m.start, m.stop) ∈ (mappingKeys maps).map fun k => (k.1, k.2.1)
  modules : ∀ m ∈ u.modules, (m.1, m.2.1) ∈ (mappingKeys maps).map fun k => (k.1, k.2.1)

/-- The modules have been made from some mappings. -/
def Built (u : StackUnwinder) : Prop := ∃ maps, u.Fits maps

theorem built_default : Built .default :=
  ⟨[], rfl, fun _ hm => absurd hm List.not_mem_nil, fun _ hm => absurd hm List.not_mem_nil⟩

variable {page : UInt64} {symbols : MemoryMap → Option ElfSymbols} {maps : List MemoryMap}

theorem addModule_fits {u : StackUnwinder} (h : u.Fits maps) {map : MemoryMap}
    (hmap : map ∈ maps.filter (·.executable)) : (addModule page symbols u map).Fits maps := by
  have hrange : (map.start, map.stop) ∈ (mappingKeys maps).map fun k => (k.1, k.2.1) := by
    rw [mappingKeys, List.map_map]
    exact List.mem_map_of_mem (f := fun m : MemoryMap => (m.start, m.stop)) hmap
  unfold addModule
  split
  · exact h
  · split
    · exact h
    · split
      · exact h
      · refine ⟨h.mappings, fun m hm => ?_, fun m hm => ?_⟩
        · rcases List.mem_append.mp hm with hm | hm
          · exact h.unwinder m hm
          · rw [List.mem_singleton.mp hm]
            exact hrange
        · rcases List.mem_append.mp hm with hm | hm
          · exact h.modules m hm
          · rw [List.mem_singleton.mp hm]
            exact hrange

/-- Whatever the modules were made from, they fit the mappings they are registered anew for. -/
theorem refresh_fits {u : StackUnwinder} (h : u.Built) (page : UInt64) (maps : List MemoryMap)
    (symbols : MemoryMap → Option ElfSymbols) : (u.refresh page maps symbols).Fits maps := by
  unfold refresh
  split
  · next hkeys =>
    obtain ⟨before, hmappings, hunwinder, hmodules⟩ := h
    have heq : mappingKeys before = mappingKeys maps := hmappings.symm.trans hkeys.symm
    exact ⟨hkeys.symm, heq ▸ hunwinder, heq ▸ hmodules⟩
  · have hloop : ∀ (ms : List MemoryMap) (u : StackUnwinder), u.Fits maps →
        (∀ m ∈ ms, m ∈ maps.filter (·.executable)) →
          (ms.foldl (addModule page symbols) u).Fits maps := by
      intro ms
      induction ms with
      | nil => exact fun u hu _ => hu
      | cons m ms ih =>
        exact fun u hu hms => ih _ (addModule_fits hu (hms m List.mem_cons_self)) fun n hn =>
          hms n (List.mem_cons_of_mem m hn)
    exact hloop _ _ ⟨rfl, fun m hm => absurd hm List.not_mem_nil,
      fun m hm => absurd hm List.not_mem_nil⟩ fun m hm => hm

end StackUnwinder

namespace Sampling

/-! ## The fields of a sample -/

theorem field?_withoutRaw {sample : Json} {now : UInt64} {k : String}
    (h : k ∉ ["sample_time_ns", "sample_age_ms", "raw_registers", "stack_bytes", "map_epoch"]) :
    (withoutRaw now sample).field? k = sample.field? k := by
  simp only [List.mem_cons, List.not_mem_nil, or_false, not_or] at h
  obtain ⟨htime, hage, hregisters, hstack, hepoch⟩ := h
  rw [withoutRaw, Json.field?_removeField_ne _ hepoch, Json.field?_removeField_ne _ hstack,
    Json.field?_removeField_ne _ hregisters]
  split
  · rw [Json.field?_setField_ne _ hage, Json.field?_removeField_ne _ htime]
  · rw [Json.field?_removeField_ne _ htime]

section Sample

variable (v : LiveSample)

theorem index_rawRegisters :
    v.toJson.index "raw_registers" = .ofOption RegisterSet.toJson v.rawRegisters := by
  refine Json.index_of_field? ?_
  rw [LiveSample.toJson, Json.field?_ofFields]
  rfl

theorem index_stackBytes : v.toJson.index "stack_bytes" = .ofList byteJson v.stackBytes := by
  refine Json.index_of_field? ?_
  rw [LiveSample.toJson, Json.field?_ofFields]
  rfl

theorem u64?_mapEpoch : (v.toJson.field? "map_epoch").bind u64? = v.mapEpoch := by
  have hfield : v.toJson.field? "map_epoch" = some (.ofOption u64Json v.mapEpoch) := by
    rw [LiveSample.toJson, Json.field?_ofFields]
    rfl
  rw [hfield, Option.bind_some]
  cases v.mapEpoch with
  | none => rfl
  | some epoch => exact u64?_u64Json epoch

theorem asString?_architecture (now : UInt64) :
    ((withoutRaw now v.toJson).field? "architecture").bind Json.asString? =
      v.architecture.map Architecture.name := by
  have hfield : v.toJson.field? "architecture" =
      some (.ofOption (fun a => .string a.name) v.architecture) := by
    rw [LiveSample.toJson, Json.field?_ofFields]
    rfl
  rw [field?_withoutRaw (by decide), hfield, Option.bind_some]
  cases v.architecture with
  | none => rfl
  | some a => rfl

end Sample

theorem Architecture.name_inj {a b : Architecture} : a.name = b.name ↔ a = b := by
  cases a <;> cases b <;> decide

/-! ## The interpretation of a sample -/

section Interpretation

variable [Target] {ι : Type} (library : FrameLibrary ι) (page : UInt64)
  (files : MemoryMap → Option SymbolFile) (now : UInt64)

/-- What is shown of a live sample of a thread with an unwinder: its interpretation under the mappings
that the sample was accepted under. -/
def shown (u : StackUnwinder) (thread : Thread) (v : LiveSample) : Json :=
  let raw := withoutRaw now v.toJson
  match thread.accepted.getLast? with
  | none => raw
  | some (sample, maps) =>
    if v.architecture ≠ some .native then withoutInterpretation raw
    else
      let r := { sample.registers with codePacMask := thread.codePacMask }
      let (registers, frames, reason) := interpret library page files u maps r sample.stack
      ((raw.setField "registers" (.ofList Register.toJson registers)).setField "call_stack"
        (.ofList StackFrame.toJson frames)).setField "unwind_stop" (.string reason)

omit [Target] in
/-- Mappings are found under their number if nothing else is listed under it. -/
theorem mapsOf_of_filter {contexts : List MappingSnapshot} {epoch : UInt64} {maps : List MemoryMap}
    (h : contexts.filter (fun c => c.epoch = epoch) = [⟨epoch, maps⟩]) :
    mapsOf contexts epoch = some maps := by
  rw [mapsOf, ← List.head?_filter, List.filter_reverse, h]
  rfl

/-- A live sample, with another age, of a thread that retains what it has accepted last. -/
structure Reads (contexts : List MappingSnapshot) (thread : Thread) (v : LiveSample) : Prop where
  retains : Retains { thread with latest := v } thread.accepted.getLast?
  listed : ∀ sample maps, thread.accepted.getLast? = some (sample, maps) → ∀ epoch ∈ v.mapEpoch,
    mapsOf contexts epoch = some maps
  sendable : ∀ r ∈ v.rawRegisters, r.values.length = RegisterSet.count

/-- A sample is interpreted with the mappings that it was accepted under. -/
theorem interpretSample_toJson {contexts : List MappingSnapshot} {thread : Thread} {v : LiveSample}
    (h : Reads contexts thread v) {u : StackUnwinder} (hu : u.Built) :
    ∃ u', interpretSample library page files now contexts u v.toJson =
        some (u', shown library page files now u' thread v) ∧ u'.Built ∧
      ∀ sample maps, thread.accepted.getLast? = some (sample, maps) →
        v.architecture = some .native → u'.Fits maps := by
  have hretains := h.retains
  cases hlast : thread.accepted.getLast? with
  | none =>
    rw [hlast] at hretains
    obtain ⟨-, -, hregisters, -⟩ := hretains
    refine ⟨u, ?_, hu, fun _ _ h => by cases h⟩
    rw [interpretSample, shown, hlast, index_rawRegisters, show v.rawRegisters = none from hregisters]
    exact if_pos rfl
  | some e =>
    obtain ⟨sample, maps⟩ := e
    rw [hlast] at hretains
    obtain ⟨-, -, hregisters, hstack, epoch, hepoch, -⟩ := hretains
    have hregisters : v.rawRegisters =
        some { sample.registers with codePacMask := thread.codePacMask } := hregisters
    have hnull : Json.ofOption RegisterSet.toJson v.rawRegisters ≠ .null := by
      rw [hregisters]
      exact Json.noConfusion
    simp only [interpretSample, shown, hlast]
    rw [index_rawRegisters, if_neg hnull, asString?_architecture]
    by_cases harch : v.architecture = some .native
    · have hread : RegisterSet.ofJson? (Json.ofOption RegisterSet.toJson v.rawRegisters) =
          some { sample.registers with codePacMask := thread.codePacMask } := by
        rw [hregisters]
        exact RegisterSet.ofJson?_toJson (h.sendable _ hregisters)
      have hbytes : Json.items? byte? (v.toJson.index "stack_bytes") = some sample.stack := by
        rw [index_stackBytes, show v.stackBytes = sample.stack from hstack]
        exact Json.items?_ofList _ fun b _ => byte?_byteJson b
      have hmaps : ((v.toJson.field? "map_epoch").bind u64?).bind (mapsOf contexts) = some maps := by
        rw [u64?_mapEpoch, show v.mapEpoch = some epoch from hepoch, Option.bind_some]
        exact h.listed sample maps hlast epoch hepoch
      have hfits := StackUnwinder.refresh_fits hu page maps fun map => (files map).map (·.elf)
      refine ⟨_, ?_, ⟨maps, hfits⟩, fun _ _ heq _ => ?_⟩
      · rw [harch, Option.map_some, if_neg (fun h => h rfl), if_neg (fun h => h rfl), hread, hbytes,
          hmaps]
        rfl
      · obtain ⟨-, rfl⟩ := Prod.mk.inj (Option.some.inj heq)
        exact hfits
    · have hname : v.architecture.map Architecture.name ≠ some Architecture.native.name := by
        intro hname
        obtain ⟨a, ha, heq⟩ := Option.map_eq_some_iff.mp hname
        exact harch (by rw [ha, Architecture.name_inj.mp heq])
      refine ⟨u, ?_, hu, fun _ _ _ h => absurd h harch⟩
      rw [if_pos hname, if_pos harch]

/-- Every sample is interpreted with the mappings that it was accepted under. -/
theorem interpretAll_toJson {contexts : List MappingSnapshot} {α : Type} {threadOf : α → Thread}
    {sampleOf : α → LiveSample} {es : List α} (h : ∀ e ∈ es, Reads contexts (threadOf e) (sampleOf e))
    {u : StackUnwinder} (hu : u.Built) :
    ∃ u' outs, interpretAll library page files now contexts u (es.map fun e => (sampleOf e).toJson) =
        some (u', outs) ∧ u'.Built ∧
      List.Forall₂ (fun e out => ∃ u'', out = shown library page files now u'' (threadOf e) (sampleOf e) ∧
        ∀ sample maps, (threadOf e).accepted.getLast? = some (sample, maps) →
          (sampleOf e).architecture = some .native → u''.Fits maps) es outs := by
  induction es generalizing u with
  | nil => exact ⟨u, [], rfl, hu, .nil⟩
  | cons e es ih =>
    obtain ⟨mid, hmid, hmidBuilt, hfits⟩ := interpretSample_toJson library page files now
      (h e List.mem_cons_self) hu
    obtain ⟨u', outs, houts, hbuilt, hrest⟩ := ih (fun e he => h e (List.mem_cons_of_mem _ he)) hmidBuilt
    refine ⟨u', _ :: outs, ?_, hbuilt, .cons ⟨mid, rfl, hfits⟩ hrest⟩
    rw [List.map_cons, interpretAll, hmid]
    change (interpretAll library page files now contexts mid _ >>= _) = _
    rw [houts]
    rfl

end Interpretation

/-! ## A reply -/

/-- A value has the samples and the mappings of an observed process, and its identity. -/
structure Serializes (value : Json) (v : ProcessDetailSnapshot) : Prop where
  isObject : value.isObject = true
  liveSamples : value.field? "live_samples" = some (.ofList LiveSample.toJson v.liveSamples)
  mappingSnapshots : value.field? "mapping_snapshots" =
    some (.ofList MappingSnapshot.toJson v.mappingSnapshots)
  identity : (value.index "summary").index "identity" = v.summary.identity.toJson

section Reply

variable [Target] {ι : Type}

/-- A live sample with its age. -/
def aged (reading : UInt64) (thread : Thread) : LiveSample :=
  { thread.latest with
    sampleAgeMs := thread.sampledNs.map fun time => saturatingSub reading time / 1000000 }

/-- The unwinders of all processes have been made from some mappings. -/
def AllBuilt (unwinders : OrderedMap ProcessId StackUnwinder) : Prop :=
  ∀ id u, unwinders.get? id = some u → u.Built

omit [Target] in
theorem AllBuilt.makeRoom {unwinders : OrderedMap ProcessId StackUnwinder} (h : AllBuilt unwinders)
    (id : ProcessId) : AllBuilt (makeRoom unwinders id) := by
  unfold Procinsh.makeRoom
  split
  · exact fun _ _ hu => by cases hu
  · exact h

/-- What is sent and received is what was read out, without the mappings of the samples. -/
theorem exists_decode {target : ProcessDetailSnapshot} {limit : ℕ} {bytes : List UInt8}
    (h : encode target limit = .ok bytes) :
    (∀ v ∈ target.liveSamples, ∀ r ∈ v.rawRegisters, r.values.length = RegisterSet.count) ∧
    decode ProcessDetailSnapshot bytes = .ok { target with
      liveSamples := target.liveSamples.map fun v => { v with context := none } } := by
  obtain ⟨-, -, hsend, hdecode⟩ := encode_eq_ok_of_schema .processDetailSnapshot h
  exact ⟨hsend, hdecode trivial⟩

end Reply

/-! ## A reply with two lists of mappings -/

/-- The samples and the mappings of an observed process, and its identity. -/
def testValue (v : ProcessDetailSnapshot) : Json :=
  .ofFields [("summary", .ofFields [("identity", v.summary.identity.toJson)]),
    ("live_samples", .ofList LiveSample.toJson v.liveSamples),
    ("mapping_snapshots", .ofList MappingSnapshot.toJson v.mappingSnapshots)]

theorem serializes_testValue (v : ProcessDetailSnapshot) : Serializes (testValue v) v where
  isObject := rfl
  liveSamples := Json.field?_ofFields _ _
  mappingSnapshots := Json.field?_ofFields _ _
  identity := by
    have hsummary : (testValue v).index "summary" = .ofFields [("identity", v.summary.identity.toJson)] :=
      Json.index_of_field? (Json.field?_ofFields _ _)
    rw [hsummary]
    exact Json.index_of_field? (Json.field?_ofFields _ _)

/-- No frames are found. -/
def testLibrary : FrameLibrary Unit := ⟨fun _ _ => (), fun _ _ => (.done, ())⟩

/-- What is read out after two lists of mappings. -/
def testSnapshot [Target] : ProcessDetailSnapshot where
  summary := ⟨⟨42, 1⟩, 1, "test", none, none, none, none, none, none, "S", none, none, 0, 2, 0, 0⟩
  exited := false
  error := none
  processSample := ⟨0, ⟨42, 1⟩, 0, 0, 0, 0, none, none, none, [], 0, 0, 0, 0, 0⟩
  maps := []
  mapsError := none
  mapsCapturedAt := none
  rollup := none
  liveSamples := (Sampler.testSampler [Sampler.firstCall, Sampler.secondCall]).latest 3
  mappingSnapshots := (Sampler.testSampler [Sampler.firstCall, Sampler.secondCall]).mappingSnapshots
  samplingError := none

theorem isOk_encode_testSnapshot :
    let _ : Target := ⟨false⟩
    (encode testSnapshot 4096).isOk = true := by
  decide +kernel

end Sampling

end Procinsh
