import Procinsh.Foundation.Json
import Procinsh.Foundation.Lists
import Procinsh.Foundation.LittleEndian
import Procinsh.Foundation.Numerals
import Procinsh.Ipc.Acquisition
import Procinsh.Ipc.Display

/-!
# Samples and mappings as JSON

The JSON of a live sample with what belongs to it, and the JSON of mappings, registers and stacks, which
is read again where a sample is interpreted (`src/http_server/json.rs`, `src/http_server/json/acquisition.rs`,
`src/http_server/model/memory.rs`, `src/http_server/model/resource.rs`,
`src/http_server/analysis/snapshot/registers.rs`, `snapshot/stack.rs`, `snapshot/architecture.rs`).
Addresses are hexadecimal strings and inodes are decimal ones, since not every 64-bit number is exact in
the page.
-/

namespace Procinsh

open Ipc

namespace Json

/-- The object with the fields, of which the last one under a key counts. -/
def ofFields (fs : List (String × Json)) : Json :=
  object (fs.foldl (fun o f => insertField f.1 f.2 o) [])

theorem field?_ofFields (fs : List (String × Json)) (k : String) :
    (ofFields fs).field? k = lookupField k fs.reverse := by
  induction fs using List.reverseRecOn with
  | nil => rfl
  | append_singleton fs f ih =>
    obtain ⟨l, v⟩ := f
    rw [List.reverse_append, List.reverse_singleton, List.singleton_append, lookupField, ← ih, ofFields,
      List.foldl_append, field?, List.foldl_cons, List.foldl_nil]
    split
    · next h => rw [h, lookupField_insertField_self]
    · next h => rw [lookupField_insertField_ne h]; rfl

@[simp] theorem isObject_ofFields (fs : List (String × Json)) : (ofFields fs).isObject = true := rfl

/-- A field of an object is read, and what follows is done with it. -/
theorem readField {α β : Type} {fs : List (String × Json)} {k : String} {w : Json}
    {read : Json → Option α} {a : α} {f : α → Option β} (hw : lookupField k fs.reverse = some w)
    (ha : read w = some a) : ((ofFields fs).field? k >>= fun w => read w >>= f) = f a := by
  rw [field?_ofFields, hw]
  change read w >>= f = f a
  rw [ha]
  rfl

/-- A field that may be absent is read, and what follows is done with it. -/
theorem readOption {α β : Type} {fs : List (String × Json)} {k : String} {w : Json}
    {read : Option Json → Option α} {a : α} {f : α → Option β}
    (hw : lookupField k fs.reverse = some w) (ha : read (some w) = some a) :
    (read ((ofFields fs).field? k) >>= f) = f a := by
  rw [field?_ofFields, hw, ha]
  rfl

/-- A number below a bound. -/
def nat? (bound : ℕ) (v : Json) : Option ℕ :=
  match v.asInt? with
  | some n => if 0 ≤ n ∧ n < bound then some n.toNat else none
  | none => none

def asBool? : Json → Option Bool
  | bool b => some b
  | _ => none

/-- What may be absent: `null` or nothing at all. -/
def option? {α : Type} (f : Json → Option α) : Option Json → Option (Option α)
  | none => some none
  | some null => some none
  | some v => (f v).map some

def items? {α : Type} (f : Json → Option α) (v : Json) : Option (List α) := v.asArray?.bind (List.mapM f)

def ofOption {α : Type} (f : α → Json) : Option α → Json
  | none => null
  | some a => f a

def ofList {α : Type} (f : α → Json) (xs : List α) : Json := array (xs.map f)

theorem nat?_int {bound n : ℕ} (h : n < bound) : nat? bound (int n) = some n := by
  have hn : (0 : ℤ) ≤ n ∧ (n : ℤ) < bound := ⟨Int.natCast_nonneg n, by exact_mod_cast h⟩
  exact if_pos hn

/-- Items are read from what they are written as. -/
theorem items?_ofList {α : Type} {f : α → Json} {g : Json → Option α} (xs : List α)
    (h : ∀ x ∈ xs, g (f x) = some x) : items? g (ofList f xs) = some xs := by
  change (xs.map f).mapM g = some xs
  induction xs with
  | nil => rfl
  | cons x xs ih =>
    rw [List.map_cons, List.mapM_cons, h x List.mem_cons_self,
      ih fun y hy => h y (List.mem_cons_of_mem x hy)]
    rfl

theorem option?_ofOption {α : Type} {f : α → Json} {g : Json → Option α} (x : Option α)
    (h : ∀ a ∈ x, f a ≠ null ∧ g (f a) = some a) : option? g (some (ofOption f x)) = some x := by
  cases x with
  | none => rfl
  | some a =>
    obtain ⟨hnull, hread⟩ := h a rfl
    change option? g (some (f a)) = _
    generalize f a = v at hnull hread
    cases v with
    | null => exact absurd rfl hnull
    | _ => exact congrArg (Option.map some) hread

end Json

/-! ## Numbers -/

def u64Json (value : UInt64) : Json := .int value.toNat

/-- `as_u64` -/
def u64? (v : Json) : Option UInt64 := (v.nat? (2 ^ 64)).map .ofNat

/-- An address with all its digits. -/
def hex (value : UInt64) : Json :=
  .string (String.ofList ('0' :: 'x' :: paddedDigits 16 16 value.toNat))

/-- Without the prefix of a hexadecimal number, however often it is there. -/
def trimHexPrefix : List Char → List Char
  | '0' :: 'x' :: cs => trimHexPrefix cs
  | cs => cs

def deserializeHex (v : Json) : Option UInt64 :=
  v.asString?.bind fun text => fromStrRadix 16 (String.ofList (trimHexPrefix text.toList))

def decimal (value : UInt64) : Json := .string (toString value.toNat)

def deserializeDecimal (v : Json) : Option UInt64 := v.asString?.bind (fromStrRadix 10)

@[simp] theorem u64?_u64Json (value : UInt64) : u64? (u64Json value) = some value := by
  rw [u64?, u64Json, Json.nat?_int value.toNat_lt, Option.map_some, UInt64.ofNat_toNat]

theorem trimHexPrefix_of_not_mem {cs : List Char} (h : 'x' ∉ cs) : trimHexPrefix cs = cs := by
  unfold trimHexPrefix
  split
  · exact absurd (List.mem_cons_of_mem _ List.mem_cons_self) h
  · rfl

@[simp] theorem deserializeHex_hex (value : UInt64) : deserializeHex (hex value) = some value := by
  have hx : 'x' ∉ paddedDigits 16 16 value.toNat := by
    intro h
    obtain ⟨d, hd⟩ := exists_toDigit_of_mem_paddedDigits (by decide) (by decide) h
    have hnone : toDigit 16 'x' = none := by decide
    rw [hnone] at hd
    cases hd
  rw [deserializeHex, hex, Json.asString?, Option.bind_some, String.toList_ofList, trimHexPrefix, trimHexPrefix_of_not_mem hx,
    fromStrRadix_paddedDigits (by decide) (by decide)]

@[simp] theorem deserializeDecimal_decimal (value : UInt64) :
    deserializeDecimal (decimal value) = some value := fromStrRadix_toString value

/-! ## Identities -/

def ProcessId.toJson (id : ProcessId) : Json :=
  .ofFields [("pid", .int id.pid.toInt), ("start_time_ticks", u64Json id.startTimeTicks)]

/-- A 32-bit number with a sign. -/
def i32? (v : Json) : Option Int32 :=
  v.asInt?.bind fun n => if -2 ^ 31 ≤ n ∧ n < 2 ^ 31 then some (.ofInt n) else none

/-- An identity has its two fields and no others. -/
def ProcessId.ofJson? (v : Json) : Option ProcessId :=
  match v with
  | .object fs => do
    let pid ← i32? (← v.field? "pid")
    let startTimeTicks ← u64? (← v.field? "start_time_ticks")
    if fs.all fun f => f.1 = "pid" ∨ f.1 = "start_time_ticks" then some ⟨pid, startTimeTicks⟩ else none
  | _ => none

theorem ProcessId.ofJson?_toJson (id : ProcessId) : ofJson? id.toJson = some id := by
  have hbound : -2 ^ 31 ≤ id.pid.toInt ∧ id.pid.toInt < 2 ^ 31 :=
    ⟨id.pid.le_toInt, id.pid.toInt_lt⟩
  have hpid : i32? (.int id.pid.toInt) = some id.pid := by
    change (if _ then some (Int32.ofInt id.pid.toInt) else none) = _
    rw [if_pos hbound, Int32.ofInt_toInt]
  refine (Json.readField rfl hpid).trans ((Json.readField rfl (u64?_u64Json _)).trans ?_)
  refine if_pos (List.all_eq_true.mpr fun f hf => decide_eq_true ?_)
  simp only [List.foldl_cons, List.foldl_nil, Json.insertField] at hf
  split at hf <;> simp at hf <;> rcases hf with rfl | rfl <;> simp

/-! ## Mappings -/

def Ipc.DeviceId.toJson (device : DeviceId) : Json :=
  .ofFields [("major", .int device.major.toNat), ("minor", .int device.minor.toNat)]

def u32? (v : Json) : Option UInt32 := (v.nat? (2 ^ 32)).map .ofNat

def Ipc.DeviceId.ofJson? (v : Json) : Option DeviceId := do
  let major ← u32? (← v.field? "major")
  let minor ← u32? (← v.field? "minor")
  return ⟨major, minor⟩

def Ipc.MemoryMap.toJson (map : MemoryMap) : Json :=
  .ofFields [("start", hex map.start), ("end", hex map.stop), ("readable", .bool map.readable),
    ("writable", .bool map.writable), ("executable", .bool map.executable),
    ("private", .bool map.isPrivate), ("file_offset", hex map.fileOffset),
    ("device", map.device.toJson), ("inode", decimal map.inode),
    ("pathname", .ofOption .string map.pathname)]

def Ipc.MemoryMap.ofJson? (v : Json) : Option MemoryMap := do
  let start ← deserializeHex (← v.field? "start")
  let stop ← deserializeHex (← v.field? "end")
  let readable ← (← v.field? "readable").asBool?
  let writable ← (← v.field? "writable").asBool?
  let executable ← (← v.field? "executable").asBool?
  let isPrivate ← (← v.field? "private").asBool?
  let fileOffset ← deserializeHex (← v.field? "file_offset")
  let device ← DeviceId.ofJson? (← v.field? "device")
  let inode ← deserializeDecimal (← v.field? "inode")
  let pathname ← Json.option? Json.asString? (v.field? "pathname")
  return ⟨start, stop, readable, writable, executable, isPrivate, fileOffset, device, inode, pathname⟩

def Ipc.MappingSnapshot.toJson (context : MappingSnapshot) : Json :=
  .ofFields [("epoch", u64Json context.epoch), ("maps", .ofList MemoryMap.toJson context.maps)]

def Ipc.MappingSnapshot.ofJson? (v : Json) : Option MappingSnapshot := do
  let epoch ← u64? (← v.field? "epoch")
  let maps ← Json.items? MemoryMap.ofJson? (← v.field? "maps")
  return ⟨epoch, maps⟩

theorem u32?_int (n : UInt32) : u32? (.int n.toNat) = some n := by
  rw [u32?, Json.nat?_int n.toNat_lt, Option.map_some, UInt32.ofNat_toNat]

theorem Ipc.DeviceId.ofJson?_toJson (device : DeviceId) : ofJson? device.toJson = some device :=
  (Json.readField rfl (u32?_int _)).trans (Json.readField rfl (u32?_int _))

theorem Ipc.MemoryMap.ofJson?_toJson (map : MemoryMap) : ofJson? map.toJson = some map := by
  have hpath : Json.option? Json.asString? (some (.ofOption .string map.pathname)) =
      some map.pathname := Json.option?_ofOption _ fun a _ => ⟨Json.noConfusion, rfl⟩
  refine (Json.readField rfl (deserializeHex_hex _)).trans ?_
  refine (Json.readField rfl (deserializeHex_hex _)).trans ?_
  refine (Json.readField rfl rfl).trans ?_
  refine (Json.readField rfl rfl).trans ?_
  refine (Json.readField rfl rfl).trans ?_
  refine (Json.readField rfl rfl).trans ?_
  refine (Json.readField rfl (deserializeHex_hex _)).trans ?_
  refine (Json.readField rfl (DeviceId.ofJson?_toJson _)).trans ?_
  refine (Json.readField rfl (deserializeDecimal_decimal _)).trans ?_
  exact Json.readOption rfl hpath

/-- The mappings of an epoch are read as they were written. -/
theorem Ipc.MappingSnapshot.ofJson?_toJson (context : MappingSnapshot) :
    ofJson? context.toJson = some context := by
  have hmaps := Json.items?_ofList context.maps fun m _ => MemoryMap.ofJson?_toJson m
  exact (Json.readField rfl (u64?_u64Json _)).trans (Json.readField rfl hmaps)

/-! ## Registers and stacks -/

def Ipc.RegisterSet.toJson (r : RegisterSet) : Json :=
  .ofFields [("values", .ofList u64Json r.values), ("flags_available", .bool r.flagsAvailable),
    ("code_pac_mask", .ofOption u64Json r.codePacMask)]

def Ipc.RegisterSet.ofJson? [Target] (v : Json) : Option RegisterSet := do
  let values ← Json.items? u64? (← v.field? "values")
  let flagsAvailable ← (← v.field? "flags_available").asBool?
  let codePacMask ← Json.option? u64? (v.field? "code_pac_mask")
  let result : RegisterSet := ⟨values, flagsAvailable, codePacMask⟩
  if values.length = RegisterSet.count then some result else none

theorem Ipc.RegisterSet.ofJson?_toJson [Target] {r : RegisterSet}
    (h : r.values.length = RegisterSet.count) : ofJson? r.toJson = some r := by
  have hvalues := Json.items?_ofList r.values fun n _ => u64?_u64Json n
  have hmask : Json.option? u64? (some (.ofOption u64Json r.codePacMask)) = some r.codePacMask :=
    Json.option?_ofOption _ fun a _ => ⟨Json.noConfusion, u64?_u64Json a⟩
  refine (Json.readField rfl hvalues).trans ((Json.readField rfl rfl).trans ?_)
  exact (Json.readOption rfl hmask).trans (if_pos h)

def byteJson (byte : UInt8) : Json := .int byte.toNat

def byte? (v : Json) : Option UInt8 := (v.nat? (2 ^ 8)).map .ofNat

@[simp] theorem byte?_byteJson (byte : UInt8) : byte? (byteJson byte) = some byte := by
  rw [byte?, byteJson, Json.nat?_int byte.toNat_lt, Option.map_some, UInt8.ofNat_toNat]

/-! ## Live samples -/

/-- An instruction set whose processes are sampled. -/
inductive Architecture
  | x86_64
  | aarch64
  deriving DecidableEq

namespace Architecture

/-- The instruction set of an executable, from its first bytes. -/
def fromElfHeader (header : List UInt8) : Option Architecture :=
  if header.take 4 ≠ [0x7f, 0x45, 0x4c, 0x46] ∨ (header.drop 4).take 2 ≠ [2, 1] then none
  else
    match leValue (header.drop 18) with
    | 62 => some x86_64
    | 183 => some aarch64
    | _ => none

def name : Architecture → String
  | x86_64 => "x86_64"
  | aarch64 => "aarch64"

/-- The instruction set that the program is built for; `std::env::consts::ARCH`. -/
def native [Target] : Architecture := if Target.aarch64 then aarch64 else x86_64

end Architecture

def memoryKindText : MemoryKind → String
  | .integer => "integer"
  | .stack => "stack"
  | .heap => "heap"
  | .sharedLibrary => "shared_library"
  | .executable => "executable"
  | .file => "file"
  | .anonymous => "anonymous"

def registerRoleText : RegisterRole → String
  | .pc => "pc"
  | .sp => "sp"
  | .fp => "fp"
  | .lr => "lr"
  | .flags => "flags"
  | .general => "general"

def Ipc.RegisterMapping.toJson (mapping : RegisterMapping) : Json :=
  .ofFields [("pathname", .ofOption .string mapping.pathname), ("readable", .bool mapping.readable),
    ("writable", .bool mapping.writable), ("executable", .bool mapping.executable),
    ("private", .bool mapping.isPrivate)]

def Ipc.Register.toJson (r : Register) : Json :=
  .ofFields [("name", .string r.name), ("role", .string (registerRoleText r.role)),
    ("value", hex r.value), ("decimal", .string r.decimal), ("kind", .string (memoryKindText r.kind)),
    ("mapping", .ofOption RegisterMapping.toJson r.mapping),
    ("offset", .ofOption (fun value => .string ("0x" ++ hexText value.toNat)) r.offset)]

def Ipc.SourceFrame.toJson (frame : SourceFrame) : Json :=
  .ofFields [("function", .ofOption .string frame.function), ("file", .ofOption .string frame.file),
    ("line", .ofOption (fun line => .int line.toNat) frame.line)]

def Ipc.StackFrame.toJson (frame : StackFrame) : Json :=
  .ofFields [("address", hex frame.address), ("symbol", .ofOption .string frame.symbol),
    ("symbol_offset", .ofOption .string frame.symbolOffset),
    ("source_file", .ofOption .string frame.sourceFile),
    ("line", .ofOption (fun line => .int line.toNat) frame.line),
    ("inline_frames", .ofList SourceFrame.toJson frame.inlineFrames)]

def Ipc.InstructionBytes.toJson (code : InstructionBytes) : Json :=
  .ofFields [("address", hex code.address), ("bytes", .ofList byteJson code.bytes),
    ("error", .ofOption .string code.error)]

/-- The instruction set of the process of a sample. -/
def Ipc.LiveSample.architecture (sample : LiveSample) : Option Architecture :=
  sample.executableHeader.bind fun header => Architecture.fromElfHeader header.toList

/-- The context is not written. -/
def Ipc.LiveSample.toJson (sample : LiveSample) : Json :=
  .ofFields [("tid", .int sample.tid.toInt),
    ("architecture", .ofOption (fun a => .string a.name) sample.architecture),
    ("sampled_at", .ofOption u64Json sample.sampledAt),
    ("sample_time_ns", .ofOption u64Json sample.sampleTimeNs),
    ("sample_age_ms", .ofOption u64Json sample.sampleAgeMs),
    ("cpu", .ofOption (fun cpu => .int cpu.toNat) sample.cpu),
    ("lost_samples", u64Json sample.lostSamples),
    ("registers", .ofList Register.toJson sample.registers),
    ("raw_registers", .ofOption RegisterSet.toJson sample.rawRegisters),
    ("stack_bytes", .ofList byteJson sample.stackBytes),
    ("map_epoch", .ofOption u64Json sample.mapEpoch),
    ("call_stack", .ofList StackFrame.toJson sample.callStack),
    ("disassembly", .ofOption InstructionBytes.toJson sample.disassembly),
    ("unwind_stop", .string sample.unwindStop), ("error", .ofOption .string sample.error)]

end Procinsh
