import Mathlib.Data.Vector.Defs
import Procinsh.Foundation.LittleEndian

/-!
# Binary values for the helper connection

`src/ipc/codec.rs`: values are written to an `Encoder` with a byte limit and read from a `Decoder`.
Numbers have their native representation, which is little-endian and has 64-bit sizes on the
architectures that the program supports; strings and collections have lengths of four bytes; the
variants of an enumeration have tags of one byte.

Writing and reading are state transformers that can fail.  `wireStruct` and `wireEnum` stand for the
macros of the source: the first is given the fields of a type in wire order, the second the variants
of a type.  A shared value is its content.
-/

namespace Procinsh.Ipc

/-! ## Encoder and decoder -/

/-- The largest value of a `u32`. -/
def u32Max : ℕ := 2 ^ 32 - 1

/-- The text of `LimitExceeded`. -/
def limitExceeded : String := "monitor response exceeds size limit"

/-- The bytes written so far, and the most that may be written. -/
structure Encoder where
  bytes : List UInt8
  limit : ℕ
  deriving DecidableEq, Repr

/-- The bytes that have not been read. -/
structure Decoder where
  bytes : List UInt8
  deriving DecidableEq, Repr

/-- Writes to an encoder. -/
abbrev Writer := StateT Encoder (Except String) Unit

/-- Reads a value from a decoder. -/
abbrev Reader (α : Type) := StateT Decoder (Except String) α

/-- An owned value with an explicit wire representation. -/
class Wire (α : Type) where
  write : α → Writer
  read : Reader α

export Wire (write read)

/-- `Encoder::append` -/
def append (bytes : List UInt8) : Writer := fun output =>
  if bytes.length > output.limit - output.bytes.length then .error limitExceeded
  else .ok ((), { output with bytes := output.bytes ++ bytes })

/-- `Decoder::take` -/
def take (length : ℕ) : Reader (List UInt8) := fun input =>
  if length ≤ input.bytes.length then .ok (input.bytes.take length, ⟨input.bytes.drop length⟩)
  else .error "truncated monitor value"

/-! ## Numbers -/

/-- A number of `size` bytes. -/
@[reducible] def wireNumber {α : Type} (size : ℕ) (toNat : α → ℕ) (ofNat : ℕ → α) : Wire α where
  write v := append (leBytes size (toNat v))
  read := do
    let bytes ← take size
    return ofNat (leValue bytes)

/-- A floating-point number, as its bits. -/
structure F64 where
  bits : UInt64
  deriving DecidableEq, Repr

/-- A size; the program runs on 64-bit machines only. -/
abbrev Size := UInt64

instance : Wire UInt8 := wireNumber 1 UInt8.toNat UInt8.ofNat

instance : Wire UInt16 := wireNumber 2 UInt16.toNat UInt16.ofNat

instance : Wire UInt32 := wireNumber 4 UInt32.toNat UInt32.ofNat

instance : Wire UInt64 := wireNumber 8 UInt64.toNat UInt64.ofNat

instance : Wire Int32 := wireNumber 4 (fun v => v.toUInt32.toNat) fun n => (UInt32.ofNat n).toInt32

instance : Wire Int64 := wireNumber 8 (fun v => v.toUInt64.toNat) fun n => (UInt64.ofNat n).toInt64

instance : Wire F64 := wireNumber 8 (fun v => v.bits.toNat) fun n => ⟨UInt64.ofNat n⟩

/-! ## Lengths and bytes -/

/-- `Encoder::length` -/
def writeLength (length : ℕ) : Writer :=
  if length ≤ u32Max then write (UInt32.ofNat length) else throw limitExceeded

/-- `Decoder::length` -/
def readLength : Reader ℕ := do
  let length : UInt32 ← read
  let input ← get
  if length.toNat ≤ input.bytes.length then return length.toNat
  else throw "invalid monitor collection length"

/-- `Encoder::blob` -/
def writeBlob (bytes : List UInt8) : Writer := do
  writeLength bytes.length
  append bytes

/-- `Decoder::blob` -/
def readBlob : Reader (List UInt8) := do
  let length ← readLength
  take length

/-! ## Values -/

instance : Wire Bool where
  write v := write (if v then 1 else 0 : UInt8)
  read := do
    let byte : UInt8 ← read
    if byte = 0 then return false
    else if byte = 1 then return true
    else throw "invalid monitor boolean"

instance : Wire String where
  write v := writeBlob v.toByteArray.data.toList
  read := do
    let bytes ← readBlob
    match String.fromUTF8? bytes.toByteArray with
    | some text => return text
    | none => throw "invalid utf-8 sequence"

section Collections

variable {α β : Type} [Wire α] [Wire β]

/-- Writes values one after another. -/
def writeAll : List α → Writer
  | [] => return ()
  | v :: vs => do
    write v
    writeAll vs

/-- Reads a number of values. -/
def readMany : ℕ → Reader (List α)
  | 0 => return []
  | n + 1 => do
    let v ← read
    let vs ← readMany n
    return v :: vs

instance : Wire (List α) where
  write vs := do
    writeLength vs.length
    writeAll vs
  read := do
    let length ← readLength
    readMany length

instance {n : ℕ} : Wire (List.Vector α n) where
  write vs := writeAll vs.toList
  read := do
    let vs ← readMany n
    if h : vs.length = n then return ⟨vs, h⟩ else throw "invalid monitor array"

instance : Wire (Option α) where
  write
    | none => write (0 : UInt8)
    | some v => do
      write (1 : UInt8)
      write v
  read := do
    let tag : UInt8 ← read
    if tag = 0 then return none
    else if tag = 1 then
      let v ← read
      return some v
    else throw "invalid monitor option"

instance : Wire (Except β α) where
  write
    | .ok v => do
      write (0 : UInt8)
      write v
    | .error e => do
      write (1 : UInt8)
      write e
  read := do
    let tag : UInt8 ← read
    if tag = 0 then
      let v ← read
      return .ok v
    else if tag = 1 then
      let e ← read
      return .error e
    else throw "invalid monitor result"

instance : Wire (α × β) where
  write v := do
    write v.1
    write v.2
  read := do
    let a ← read
    let b ← read
    return (a, b)

instance : Wire Unit where
  write _ := return ()
  read := return ()

end Collections

/-! ## Addresses -/

/-- An IP address. -/
inductive IpAddr
  | v4 (octets : List.Vector UInt8 4)
  | v6 (octets : List.Vector UInt8 16)
  deriving DecidableEq

instance : Wire IpAddr where
  write
    | .v4 octets => do
      write (4 : UInt8)
      write octets
    | .v6 octets => do
      write (6 : UInt8)
      write octets
  read := do
    let tag : UInt8 ← read
    if tag = 4 then
      let octets ← read
      return .v4 octets
    else if tag = 6 then
      let octets ← read
      return .v6 octets
    else throw "invalid monitor IP family"

/-- An IP address with a port; IPv6 has flow information and a scope. -/
inductive SocketAddr
  | v4 (ip : List.Vector UInt8 4) (port : UInt16)
  | v6 (ip : List.Vector UInt8 16) (port : UInt16) (flowinfo scopeId : UInt32)
  deriving DecidableEq

/-- The address without the port. -/
def SocketAddr.ip : SocketAddr → IpAddr
  | v4 ip _ => .v4 ip
  | v6 ip _ _ _ => .v6 ip

/-- The port. -/
def SocketAddr.port : SocketAddr → UInt16
  | v4 _ port | v6 _ port _ _ => port

/-- Writes what only an IPv6 address has. -/
def SocketAddr.writeRest : SocketAddr → Writer
  | v4 _ _ => return ()
  | v6 _ _ flowinfo scopeId => do
    write flowinfo
    write scopeId

/-- Reads what only an IPv6 address has. -/
def SocketAddr.readRest (port : UInt16) : IpAddr → Reader SocketAddr
  | .v4 ip => return v4 ip port
  | .v6 ip => do
    let flowinfo ← read
    let scopeId ← read
    return v6 ip port flowinfo scopeId

instance : Wire SocketAddr where
  write address := do
    write address.ip
    write address.port
    address.writeRest
  read := do
    let ip ← read
    let port ← read
    SocketAddr.readRest port ip

/-! ## Structures and enumerations -/

section Macros

variable {α β : Type}

/-- `wire_struct!`: the fields in wire order, and the value made of them. -/
@[reducible] def wireStruct [Wire β] (fields : α → β) (make : β → α) : Wire α where
  write v := write (fields v)
  read := do
    let fs ← read
    return make fs

/-- A variant of an enumeration, with its tag and its fields. -/
structure Variant (α : Type) where
  tag : UInt8
  Fields : Type
  wire : Wire Fields
  make : Fields → α
  /-- The fields of a value of this variant. -/
  fields? : α → Option Fields
  fields?_make : ∀ fs, fields? (make fs) = some fs
  make_of_fields? : ∀ v fs, fields? v = some fs → make fs = v

/-- A variant without fields. -/
abbrev Variant.unit [DecidableEq α] (tag : UInt8) (value : α) : Variant α where
  tag := tag
  Fields := Unit
  wire := inferInstance
  make _ := value
  fields? v := if v = value then some () else none
  fields?_make _ := if_pos rfl
  make_of_fields? v _ h := by
    by_contra hne
    rw [if_neg (Ne.symm hne)] at h
    cases h

/-- A variant with fields; `make` and `fields?` are checked by cases on the values. -/
abbrev Variant.of [wire : Wire β] (tag : UInt8) (make : β → α) (fields? : α → Option β)
    (hmake : ∀ fs, fields? (make fs) = some fs := by exact fun _ => rfl)
    (hfields : ∀ v fs, fields? v = some fs → make fs = v := by
      intro v fs h
      cases v <;> cases h <;> rfl) : Variant α :=
  ⟨tag, β, wire, make, fields?, hmake, hfields⟩

/-- Writes the tag and the fields. -/
def Variant.writeFields (c : Variant α) (fs : c.Fields) : Writer := do
  write c.tag
  c.wire.write fs

/-- Writes a value of this variant. -/
def Variant.write? (c : Variant α) (v : α) : Option Writer :=
  (c.fields? v).map c.writeFields

/-- Reads the fields. -/
def Variant.readFields (c : Variant α) : Reader α := do
  let fs ← c.wire.read
  return c.make fs

/-- `wire_enum!`; the variants of a type cover it, so that writing never falls through. -/
@[reducible] def wireEnum (variants : List (Variant α)) : Wire α where
  write v := (variants.findSome? fun c => c.write? v).getD (throw "")
  read := do
    let tag : UInt8 ← read
    match variants.find? fun c => c.tag = tag with
    | some c => c.readFields
    | none => throw "invalid monitor enum tag"

end Macros

/-! ## Encoding and decoding -/

/-- `encode` -/
def encode {α : Type} [Wire α] (value : α) (limit : ℕ) : Except String (List UInt8) := do
  let ((), output) ← write value ⟨[], min limit u32Max⟩
  return output.bytes

/-- `decode` -/
def decode (α : Type) [Wire α] (bytes : List UInt8) : Except String α := do
  let (value, input) ← (read : Reader α) ⟨bytes⟩
  if input.bytes = [] then return value else throw "trailing monitor bytes"

end Procinsh.Ipc
