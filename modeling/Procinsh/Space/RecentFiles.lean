import Procinsh.Foundation.Double
import Procinsh.Foundation.OrderedMap
import Procinsh.Space.Qualify

/-!
# Recent file activity

`RecentFiles` (`web/src/space/data.ts`) keeps the files that processes have used lately, in one map
whose insertion order is the order of last use: an entry that is used again is removed and inserted
anew.  Entries go when they have not been used for 30 seconds or their process is gone, unless they
are retained, and when an insertion reaches the limit of its process or of the whole map.

Byte counts and clock readings are doubles.
-/

namespace Procinsh.Space

/-- The identity of a file. -/
structure FileIdentity where
  major : ℤ
  minor : ℤ
  inode : String
  generation : ℤ
  deriving DecidableEq

/-- What a process has read from or written to a file. -/
structure FileActivity where
  processId : ProcessId
  file : FileIdentity
  path : Option String
  write : Bool
  bytes : Double
  count : Double

/-- A file in recent use. -/
structure RecentFile where
  id : String
  processId : ProcessId
  file : FileIdentity
  path : Option String
  label : String
  last : Double
  readBytes : Double
  writeBytes : Double
  readCount : Double
  writeCount : Double

/-- `fileKey`: the text of an array. -/
def fileKey (e : FileActivity) : String :=
  (Json.array [.string (key e.processId), .int e.file.major, .int e.file.minor,
    .string e.file.inode, .int e.file.generation]).text

/-- `fileLabel` -/
def fileLabel (file : FileIdentity) : String :=
  "file:" ++ toString file.major ++ ":" ++ toString file.minor ++ ":" ++ file.inode ++ ":" ++
    toString file.generation

/-- What is behind the last slash of a path. -/
def baseName (path : String) : String :=
  String.ofList ((path.toList.splitOn '/').getLastD [])

/-- The label of a file: its name, or its identity where there is none. -/
def labelOf (path : Option String) (file : FileIdentity) : String :=
  match path.map baseName with
  | none | some "" => fileLabel file
  | some name => name

/-- The entry of a file that has not been used yet. -/
def newFile (now : Double) (e : FileActivity) : RecentFile where
  id := fileKey e
  processId := e.processId
  file := e.file
  path := none
  label := fileLabel e.file
  last := now
  readBytes := 0
  writeBytes := 0
  readCount := 0
  writeCount := 0

/-- The entry of a file after a use. -/
def RecentFile.record (file : RecentFile) (now : Double) (e : FileActivity) : RecentFile :=
  let path := if e.path = none ∨ e.path = some "" then file.path else e.path
  { file with
    path
    label := labelOf path file.file
    last := now
    readBytes := if e.write then file.readBytes else file.readBytes + e.bytes
    writeBytes := if e.write then file.writeBytes + e.bytes else file.writeBytes
    readCount := if e.write then file.readCount else file.readCount + e.count
    writeCount := if e.write then file.writeCount + e.count else file.writeCount }

/-- An event that is not skipped: its process is live, and something has been moved. -/
def FileActivity.accepted (live : String → Bool) (e : FileActivity) : Bool :=
  live (key e.processId) && (0 < e.bytes) && (0 < e.count)

/-- The time in milliseconds after which a file that is not used goes. -/
def expiry : Double := .ofInt 30000 (by decide)

/-- The files in recent use, and how many have been evicted. -/
structure RecentFiles where
  entries : OrderedMap String RecentFile
  evicted : ℕ

namespace RecentFiles

/-- No files. -/
def empty : RecentFiles := ⟨.empty, 0⟩

/-- `clear` -/
def clear (_files : RecentFiles) : RecentFiles := empty

/-- An entry that is kept when entries expire. -/
def keeps (now : Double) (live retained : String → Bool) (id : String) (file : RecentFile) : Bool :=
  retained id || !((expiry ≤ now - file.last) || !live (key file.processId))

/-- `prune`, with whether anything has changed. -/
def prune (files : RecentFiles) (now : Double) (live retained : String → Bool) :
    RecentFiles × Bool :=
  ({ files with entries := files.entries.retain (keeps now live retained) },
    files.entries.entries.any fun e => !keeps now live retained e.1 e.2)

/-- The entry that an insertion evicts: the first of the same process at the limit of 32, the first
of all at the limit of 512. -/
def victim? (files : RecentFiles) (e : FileActivity) : Option RecentFile :=
  let owned := files.entries.values.filter fun file => key file.processId = key e.processId
  if 32 ≤ owned.length then owned.head?
  else if 512 ≤ files.entries.size then files.entries.values.head?
  else none

/-- Makes room for an insertion. -/
def makeRoom (files : RecentFiles) (e : FileActivity) : RecentFiles :=
  match files.victim? e with
  | some victim => { entries := files.entries.erase victim.id, evicted := files.evicted + 1 }
  | none => files

/-- What an accepted event does. -/
def use (files : RecentFiles) (now : Double) (e : FileActivity) : RecentFiles :=
  let (room, file) :=
    match files.entries.get? (fileKey e) with
    | some file => (files, file)
    | none => (files.makeRoom e, newFile now e)
  { room with
    entries := (room.entries.erase (fileKey e)).set (fileKey e) (file.record now e) }

/-- What an event of `ingest` does; `changed` is set when an entry is new. -/
def ingestEvent (now : Double) (live : String → Bool) (result : RecentFiles × Bool)
    (e : FileActivity) : RecentFiles × Bool :=
  if e.accepted live then
    (result.1.use now e, result.2 || (result.1.entries.get? (fileKey e)).isNone)
  else result

/-- `ingest`, with whether anything has changed. -/
def ingest (files : RecentFiles) (events : List FileActivity) (now : Double)
    (live retained : String → Bool) : RecentFiles × Bool :=
  events.foldl (ingestEvent now live) (files.prune now live retained)

end RecentFiles

end Procinsh.Space
