import Procinsh.Foundation.Checked
import Procinsh.Foundation.LittleEndian
import Procinsh.Ipc.Acquisition

/-!
# Acquiring the needed ranges of a mapped ELF file

The server asks the helper for ranges of a mapped file and selects the next ranges from what it has
received: the tables behind the header, the names of the sections, and the sections with symbols,
debugging and unwinding information (`src/http_server/elf_reader.rs`,
`src/http_server/analysis/snapshot/symbol/image.rs`).  The helper checks the ranges that it is asked
for (`src/privileged_helper/process/elf.rs`).

The content of the file is not trusted, so arithmetic and indexing are checked: a computation that
would overflow or leave its bytes fails in a way that errors do not.
-/

namespace Procinsh

open Ipc

/-! ## Failures -/

/-- How a computation fails: by a panic, because bytes are read that were not received, or with
another error. -/
inductive Failure
  | overflow
  | outOfRange
  | unreachable
  | missing (offset length : UInt64)
  | error (message : String)

/-- Whether a failure is a panic. -/
def Failure.IsPanic : Failure → Prop
  | overflow | outOfRange | unreachable => True
  | missing _ _ | error _ => False

/-- A checked computation. -/
abbrev Checked (α : Type) := Except Failure α

/-- `ensure!` -/
def ensure (p : Prop) [Decidable p] (message : String) : Checked Unit :=
  if p then .ok () else .error (.error message)

def addU64 (a b : UInt64) : Checked UInt64 :=
  if a.toNat + b.toNat < 2 ^ 64 then .ok (a + b) else .error .overflow

def subU64 (a b : UInt64) : Checked UInt64 :=
  if b ≤ a then .ok (a - b) else .error .overflow

def mulU64 (a b : UInt64) : Checked UInt64 :=
  if a.toNat * b.toNat < 2 ^ 64 then .ok (a * b) else .error .overflow

/-- A sum that is an error where it overflows. -/
def checkedAdd (a b : UInt64) (message : String) : Checked UInt64 :=
  if a.toNat + b.toNat < 2 ^ 64 then .ok (a + b) else .error (.error message)

/-- `bytes[start..stop]` -/
def sliceBytes (bytes : List UInt8) (start stop : ℕ) : Checked (List UInt8) :=
  if start ≤ stop ∧ stop ≤ bytes.length then .ok ((bytes.drop start).take (stop - start))
  else .error .outOfRange

/-- `bytes[index]` -/
def indexBytes (bytes : List UInt8) (index : ℕ) : Checked UInt8 :=
  match bytes[index]? with
  | some byte => .ok byte
  | none => .error .outOfRange

/-- The sum of lengths. -/
def sumU64 (lengths : List UInt64) : Checked UInt64 := lengths.foldlM addU64 0

/-! ## The helper -/

/-- `MAX_FILE_SIZE` -/
def maxFileSize : ℕ := 128 * 1024 * 1024

/-- `MAX_RANGES` -/
def maxRanges : ℕ := 60

/-- `file_identity` of a file with the content -/
def fileIdentity (dev ino : UInt64) (content : List UInt8) (mtime mtimeNsec : Int64) : ElfFileId :=
  (dev, ino, .ofNat content.length, mtime, mtimeNsec)

/-- The length of an identified file. -/
def Ipc.ElfFileId.fileLength (identity : ElfFileId) : UInt64 := identity.2.2.1

/-- Adds a range to what is read. -/
def checkRange (fileLength : ℕ) (total : ℕ) (range : FileRange) : Except String ℕ :=
  if fileLength < range.offset.toNat + range.length.toNat then
    .error "mapped file range out of bounds"
  else if 2 ^ 64 ≤ total + range.length.toNat then
    .error "mapped file read overflow"
  else if maxReadSize < total + range.length.toNat then
    .error "mapped file read exceeds limit"
  else
    .ok (total + range.length.toNat)

/-- The content of a range of a file. -/
def readChunk (content : List UInt8) (range : FileRange) : FileChunk :=
  ⟨range.offset, (content.drop range.offset.toNat).take range.length.toNat⟩

/-- What the helper answers while the mapped file has an identity and a content. -/
def readMappedFileRanges (identity : ElfFileId) (content : List UInt8) (ranges : List FileRange) :
    Except String (Option MappedFileData) :=
  if maxFileSize < content.length then
    .ok none
  else if maxRanges < ranges.length then
    .error "too many mapped file ranges"
  else
    match ranges.foldlM (checkRange content.length) 0 with
    | .error message => .error message
    | .ok _ => .ok (some ⟨identity, ranges.map (readChunk content)⟩)

/-! ## Images -/

/-- The received ranges of a file. -/
structure ElfImage where
  identity : ElfFileId
  chunks : List FileChunk

/-- The length of a chunk. -/
def Ipc.FileChunk.length (chunk : FileChunk) : UInt64 := .ofNat chunk.bytes.length

namespace ElfImage

/-- Adds a chunk to the merged ones, the last of which comes first. -/
def mergeChunk (fileLength : UInt64) (merged : List FileChunk) (chunk : FileChunk) :
    Checked (List FileChunk) := do
  let stop ← checkedAdd chunk.offset chunk.length "ELF range overflow"
  ensure (stop ≤ fileLength) "ELF range exceeds file"
  match merged with
  | [] => return [chunk]
  | last :: rest =>
    let lastStop ← addU64 last.offset last.length
    if chunk.offset ≤ lastStop then
      let overlap ← subU64 lastStop chunk.offset
      if overlap.toNat < chunk.bytes.length then
        let bytes ← sliceBytes chunk.bytes overlap.toNat chunk.bytes.length
        return { last with bytes := last.bytes ++ bytes } :: rest
      else
        return last :: rest
    else
      return chunk :: last :: rest

def extend (image : ElfImage) (data : MappedFileData) : Checked ElfImage := do
  ensure (data.identity = image.identity) "mapped file changed during acquisition"
  let chunks := (image.chunks ++ data.chunks).mergeSort fun a b => decide (a.offset ≤ b.offset)
  let merged ← chunks.foldlM (mergeChunk image.identity.fileLength) []
  let total ← sumU64 (merged.map FileChunk.length)
  ensure (total.toNat ≤ maxReadSize) "ELF acquisition exceeds limit"
  return { image with chunks := merged.reverse }

def new (data : MappedFileData) : Checked ElfImage := do
  ensure (data.identity.fileLength.toNat ≤ maxFileSize) "ELF file exceeds limit"
  extend ⟨data.identity, []⟩ data

/-! ### Reading -/

/-- The bytes of a range in the first chunk that has it. -/
def findChunk (offset stop : UInt64) : List FileChunk → Checked (Option (List UInt8))
  | [] => return none
  | chunk :: chunks =>
    if chunk.offset ≤ offset then do
      let chunkStop ← addU64 chunk.offset chunk.length
      if stop ≤ chunkStop then
        let start ← subU64 offset chunk.offset
        let stop ← subU64 stop chunk.offset
        let bytes ← sliceBytes chunk.bytes start.toNat stop.toNat
        return some bytes
      else
        findChunk offset stop chunks
    else
      findChunk offset stop chunks

/-- The bytes of a range, if they were received. -/
def readBytesAt (image : ElfImage) (offset size : UInt64) : Checked (Option (List UInt8)) :=
  if image.identity.fileLength < offset then
    return none
  else if size = 0 then
    return some []
  else if offset.toNat + size.toNat < 2 ^ 64 then
    findChunk offset (offset + size) image.chunks
  else
    return none

/-- The first chunk that has the byte at an offset. -/
def chunkAt (offset : UInt64) : List FileChunk → Checked (Option FileChunk)
  | [] => return none
  | chunk :: chunks =>
    if chunk.offset ≤ offset then do
      let chunkStop ← addU64 chunk.offset chunk.length
      if offset < chunkStop then return some chunk else chunkAt offset chunks
    else
      chunkAt offset chunks

/-- The bytes of a range before a delimiter, if they were received together. -/
def readBytesAtUntil (image : ElfImage) (start stop : UInt64) (delimiter : UInt8) :
    Checked (Option (List UInt8)) :=
  if stop < start ∨ image.identity.fileLength < stop then
    return none
  else do
    let found ← chunkAt start image.chunks
    match found with
    | none => return none
    | some chunk =>
      let chunkStop ← addU64 chunk.offset chunk.length
      let first ← subU64 start chunk.offset
      let last ← subU64 (min stop chunkStop) chunk.offset
      if first ≤ last ∧ last.toNat ≤ chunk.bytes.length then
        let bytes := (chunk.bytes.drop first.toNat).take (last - first).toNat
        match bytes.findIdx? (· = delimiter) with
        | none => return none
        | some length =>
          let bytes ← sliceBytes bytes 0 length
          return some bytes
      else
        return none

def bytes (image : ElfImage) (offset length : UInt64) : Checked (List UInt8) := do
  let read ← image.readBytesAt offset length
  match read with
  | some bytes => return bytes
  | none => .error (.missing offset length)

def number (image : ElfImage) (offset length : UInt64) : Checked UInt64 := do
  let bytes ← image.bytes offset length
  if length = 2 ∨ length = 4 ∨ length = 8 then
    ensure (bytes.length = length.toNat) "could not convert slice to array"
    return .ofNat (leValue bytes)
  else
    .error .unreachable

/-! ### The header and its tables -/

def elfMagic : List UInt8 := [0x7f, 0x45, 0x4c, 0x46]

def is64 (image : ElfImage) : Checked Bool := do
  let ident ← image.bytes 0 16
  let magic ← sliceBytes ident 0 4
  ensure (magic = elfMagic) "unsupported ELF header"
  let data ← indexBytes ident 5
  ensure (data = 1) "unsupported ELF header"
  let version ← indexBytes ident 6
  ensure (version = 1) "unsupported ELF header"
  let cls ← indexBytes ident 4
  if cls = 1 then return false
  else if cls = 2 then return true
  else .error (.error "unsupported ELF class")

/-- The offset, the entry size and the number of entries of the section table, and the entry of the
section names. -/
def sectionTable (image : ElfImage) : Checked (UInt64 × UInt64 × UInt64 × UInt64) := do
  let wide ← image.is64
  let offset ← image.number (if wide then 40 else 32) (if wide then 8 else 4)
  let size ← image.number (if wide then 58 else 46) 2
  let count ← image.number (if wide then 60 else 48) 2
  let names ← image.number (if wide then 62 else 50) 2
  ensure (0 < count ∧ count ≤ 4096 ∧ size = (if wide then 64 else 40) ∧ names < count)
    "unsupported ELF section table"
  return (offset, size, count, names)

/-- Keeps a range that was not received. -/
def retainMissing (image : ElfImage) (kept : List FileRange) (range : FileRange) :
    Checked (List FileRange) :=
  if range.length = 0 then
    return kept
  else do
    let read ← image.readBytesAt range.offset range.length
    return if read.isNone then kept ++ [range] else kept

/-- Adds a range to the merged ones, the last of which comes first. -/
def mergeRange (fileLength : UInt64) (merged : List FileRange) (range : FileRange) :
    Checked (List FileRange) := do
  let stop ← checkedAdd range.offset range.length "ELF range overflow"
  ensure (stop ≤ fileLength) "ELF range exceeds file"
  match merged with
  | [] => return [range]
  | last :: rest =>
    let lastStop ← addU64 last.offset last.length
    if range.offset ≤ lastStop then
      let length ← subU64 stop last.offset
      return { last with length := max last.length length } :: rest
    else
      return range :: last :: rest

/-- The ranges that are still to be received, without overlaps. -/
def ranges (image : ElfImage) (ranges : List FileRange) : Checked (List FileRange) := do
  let kept ← ranges.foldlM image.retainMissing []
  let sorted := kept.mergeSort fun a b => decide (a.offset ≤ b.offset)
  let merged ← sorted.foldlM (mergeRange image.identity.fileLength) []
  let total ← sumU64 (merged.map FileRange.length)
  ensure (total.toNat ≤ maxReadSize) "ELF ranges exceed limit"
  return merged.reverse

def tables (image : ElfImage) : Checked (List FileRange) := do
  let (offset, size, count, _) ← image.sectionTable
  let wide ← image.is64
  let programs ← image.number (if wide then 32 else 28) (if wide then 8 else 4)
  let entrySize ← image.number (if wide then 54 else 42) 2
  let entries ← image.number (if wide then 56 else 44) 2
  ensure (entries ≤ 4096) "too many ELF segments"
  let sectionLength ← mulU64 size count
  let programLength ← mulU64 entrySize entries
  image.ranges [⟨offset, sectionLength⟩, ⟨programs, programLength⟩]

/-- The name, the kind, the offset and the length of a section (`section` in the source). -/
def sectionEntry (image : ElfImage) (index : UInt64) :
    Checked (UInt64 × UInt64 × UInt64 × UInt64) := do
  let (table, size, count, _) ← image.sectionTable
  ensure (index < count) "invalid ELF section index"
  let skipped ← mulU64 index size
  let start ← addU64 table skipped
  let wide ← image.is64
  let name ← image.number start 4
  let kindAt ← addU64 start 4
  let kind ← image.number kindAt 4
  let offsetAt ← addU64 start (if wide then 24 else 16)
  let offset ← image.number offsetAt (if wide then 8 else 4)
  let lengthAt ← addU64 start (if wide then 32 else 20)
  let length ← image.number lengthAt (if wide then 8 else 4)
  return (name, kind, offset, length)

def names (image : ElfImage) : Checked (List FileRange) := do
  let (_, _, _, index) ← image.sectionTable
  let (_, _, offset, length) ← image.sectionEntry index
  image.ranges [⟨offset, length⟩]

/-- Whether a section is needed by its name. -/
def neededSection (name : String) : Bool :=
  name.startsWith ".debug_" || name.startsWith ".zdebug_" ||
    name ∈ [".eh_frame", ".eh_frame_hdr", ".symtab", ".dynsym", ".strtab", ".dynstr", ".shstrtab",
      ".symtab_shndx"]

/-- Adds the range of a section that is needed. -/
def selectSection (image : ElfImage) (names : List UInt8) (ranges : List FileRange) (index : ℕ) :
    Checked (List FileRange) := do
  let (name, kind, offset, length) ← image.sectionEntry (.ofNat index)
  if kind = 8 ∨ length = 0 then
    return ranges
  else
    ensure (name.toNat ≤ names.length) "invalid ELF section name"
    let text := names.drop name.toNat
    match text.findIdx? (· = 0) with
    | none => .error (.error "unterminated ELF section name")
    | some stop =>
      let text ← sliceBytes text 0 stop
      match String.fromUTF8? text.toByteArray with
      | none => .error (.error "invalid utf-8 sequence")
      | some name =>
        if neededSection name ∨ kind = 2 ∨ kind = 3 ∨ kind = 11 ∨ kind = 18 then
          ensure (length.toNat ≤ 32 * 1024 * 1024) "ELF section exceeds limit"
          return ranges ++ [⟨offset, length⟩]
        else
          return ranges

def sections (image : ElfImage) : Checked (List FileRange) := do
  let (_, _, count, index) ← image.sectionTable
  let (_, _, offset, length) ← image.sectionEntry index
  let names ← image.bytes offset length
  let ranges ← (List.range count.toNat).foldlM (image.selectSection names) []
  image.ranges ranges

end ElfImage

/-! ## The acquisition -/

/-- A list in pieces of a length, the last possibly shorter (`chunks`). -/
def piecesOf {α : Type} (n : ℕ) (l : List α) : List (List α) :=
  (List.range ((l.length + n - 1) / n)).map fun i => (l.drop (i * n)).take n

/-- What an acquisition did: the ranges of its requests, the images whose bytes it has parsed, and
its result. -/
structure Acquisition where
  requests : List (List FileRange)
  parsed : List ElfImage
  result : Checked (Option ElfImage)

/-- Asks for pieces of ranges one after another and adds what is received to an image. -/
def requestPieces (serve : List FileRange → Except String (Option MappedFileData)) :
    ElfImage → List (List FileRange) → List (List FileRange) × Checked (Option ElfImage)
  | image, [] => ([], .ok (some image))
  | image, ranges :: pieces =>
    match serve ranges with
    | .error message => ([ranges], .error (.error message))
    | .ok none => ([ranges], .ok none)
    | .ok (some data) =>
      match image.extend data with
      | .error failure => ([ranges], .error failure)
      | .ok image =>
        let (requests, result) := requestPieces serve image pieces
        (ranges :: requests, result)

/-- Selects ranges from an image in stages and asks for them. -/
def runStages (serve : List FileRange → Except String (Option MappedFileData)) :
    ElfImage → List (ElfImage → Checked (List FileRange)) → Acquisition
  | image, [] => ⟨[], [image], .ok (some image)⟩
  | image, stage :: stages =>
    match stage image with
    | .error failure => ⟨[], [image], .error failure⟩
    | .ok ranges =>
      match requestPieces serve image (piecesOf maxRanges ranges) with
      | (requests, .error failure) => ⟨requests, [image], .error failure⟩
      | (requests, .ok none) => ⟨requests, [image], .ok none⟩
      | (requests, .ok (some next)) =>
        let rest := runStages serve next stages
        ⟨requests ++ rest.requests, image :: rest.parsed, rest.result⟩

/-- The request for the header. -/
def headerRanges : List FileRange := [⟨0, 64⟩]

/-- The acquisition of a mapped file, unless it is the one already known. -/
def acquireMappedElfImage (serve : List FileRange → Except String (Option MappedFileData))
    (known : Option ElfFileId) : Acquisition :=
  match serve headerRanges with
  | .error message => ⟨[headerRanges], [], .error (.error message)⟩
  | .ok none => ⟨[headerRanges], [], .ok none⟩
  | .ok (some header) =>
    if some header.identity = known then
      ⟨[headerRanges], [], .ok none⟩
    else
      match ElfImage.new header with
      | .error failure => ⟨[headerRanges], [], .error failure⟩
      | .ok image =>
        let run := runStages serve image [ElfImage.tables, ElfImage.names, ElfImage.sections]
        { run with requests := headerRanges :: run.requests }

end Procinsh
