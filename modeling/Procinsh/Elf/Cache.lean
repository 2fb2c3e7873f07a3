import Procinsh.Analysis.Descriptors
import Procinsh.Elf.Reading
import Procinsh.Foundation.OrderedMap
import Procinsh.Foundation.Saturating

/-!
# The cache of parsed ELF files

`ElfCache` (`src/http_server/analysis/snapshot/symbol/cache.rs`) keeps parsed files by the versions
of the files, the version that was last parsed for each mapped file, and the version that was last
rejected for each mapped file.  The three maps are emptied at different times: the parsed files
together with the mapped ones, the rejected versions on their own.

What parsing makes of the bytes of a file is a parameter; the check of their length is not.
-/

namespace Procinsh

open Ipc

/-! ## The cache -/

/-- `MAX_FILES` -/
def maxFiles : ℕ := 64

/-- `MAX_CACHE_BYTES` -/
def maxCacheBytes : ℕ := 128 * 1024 * 1024

/-- The major and the minor number of a device and an inode. -/
abbrev MappedFileId := UInt32 × UInt32 × UInt64

/-- What a map is known by in the cache. -/
def Ipc.MemoryMap.mappedFileId (map : MemoryMap) : MappedFileId :=
  (map.device.major, map.device.minor, map.inode)

/-- Whether a version of a file is one of the mapped file. -/
def Ipc.ElfFileId.IsOf (identity : ElfFileId) (file : MappedFileId) : Prop :=
  identity.2.1 = file.2.2 ∧ (DeviceId.ofStat identity.1).major = file.1 ∧
    (DeviceId.ofStat identity.1).minor = file.2.1

instance (identity : ElfFileId) (file : MappedFileId) : Decidable (identity.IsOf file) :=
  inferInstanceAs (Decidable (_ ∧ _ ∧ _))

/-- `parse_reader`: files that are too long are not parsed. -/
def parseReader {S : Type} (parse : ElfImage → Option S) (file : ElfImage) : Option S :=
  if maxFileSize < file.identity.fileLength.toNat then none else parse file

/-- Parsed files by their versions, and the parsed and the rejected versions of mapped files. -/
structure ElfCache (S : Type) where
  entries : OrderedMap ElfFileId S
  mappings : OrderedMap MappedFileId ElfFileId
  failures : OrderedMap MappedFileId ElfFileId

namespace ElfCache

variable {S : Type}

/-- `default` -/
def empty : ElfCache S := ⟨.empty, .empty, .empty⟩

/-- The lengths of the parsed files. -/
def lengths (cache : ElfCache S) : List UInt64 := cache.entries.entries.map fun e => e.1.fileLength

/-- Keeps a version as rejected. -/
def reject (cache : ElfCache S) (file : MappedFileId) (identity : ElfFileId) : ElfCache S where
  entries := cache.entries
  mappings := cache.mappings.erase file
  failures := (if maxFiles ≤ cache.failures.size then .empty else cache.failures).set file identity

/-- Whether a version does not fit beside the parsed ones. -/
def isFull (cache : ElfCache S) (identity : ElfFileId) : Checked Bool :=
  if maxFiles ≤ cache.entries.size then
    return true
  else do
    let total ← sumU64 cache.lengths
    return decide (maxCacheBytes < (saturatingAdd total identity.fileLength).toNat)

/-- Keeps a version as parsed. -/
def load (cache : ElfCache S) (file : MappedFileId) (identity : ElfFileId) (symbols : S) :
    Checked (ElfCache S) := do
  let full ← cache.isFull identity
  return {
    entries := (if full then .empty else cache.entries).set identity symbols
    mappings := if full then .empty else cache.mappings
    failures := cache.failures.erase file }

/-- Makes a version the current one of a mapped file. -/
def point (cache : ElfCache S) (file : MappedFileId) (identity : ElfFileId) : ElfCache S :=
  { cache with mappings := cache.mappings.set file identity }

/-- What an insertion returns, and the cache behind it. -/
def insertReader (parse : ElfImage → Option S) (cache : ElfCache S) (map : MemoryMap)
    (file : ElfImage) : Checked (Option S × ElfCache S) :=
  if ¬ file.identity.IsOf map.mappedFileId then
    return (none, cache)
  else
    match cache.entries.get? file.identity with
    | some symbols => return (some symbols, cache.point map.mappedFileId file.identity)
    | none =>
      match parseReader parse file with
      | none => return (none, cache.reject map.mappedFileId file.identity)
      | some symbols => do
        let cache ← cache.load map.mappedFileId file.identity symbols
        return (some symbols, cache.point map.mappedFileId file.identity)

/-- The known version of a mapped file, parsed or rejected. -/
def identity (cache : ElfCache S) (map : MemoryMap) : Option ElfFileId :=
  ((cache.mappings.get? map.mappedFileId).filter fun id => (cache.entries.get? id).isSome).or
    (cache.failures.get? map.mappedFileId)

/-- The symbols of a mapped file. -/
def get (cache : ElfCache S) (map : MemoryMap) : Option S :=
  (cache.mappings.get? map.mappedFileId).bind fun id => cache.entries.get? id

end ElfCache

/-! ## Runs -/

/-- An insertion with what it returned. -/
structure CacheAttempt (S : Type) where
  map : MemoryMap
  file : ElfImage
  result : Option S

/-- Whether the inserted version is one of the mapped file. -/
def CacheAttempt.Accepted {S : Type} (attempt : CacheAttempt S) : Prop :=
  attempt.file.identity.IsOf attempt.map.mappedFileId

instance {S : Type} (attempt : CacheAttempt S) : Decidable attempt.Accepted :=
  inferInstanceAs (Decidable (ElfFileId.IsOf _ _))

/-- The insertions for a mapped file whose versions are ones of it. -/
def attemptsFor {S : Type} (attempts : List (CacheAttempt S)) (file : MappedFileId) :
    List (CacheAttempt S) :=
  attempts.filter fun attempt => attempt.map.mappedFileId = file ∧ attempt.Accepted

namespace ElfCache

variable {S : Type}

/-- One insertion, after those that are known. -/
def insertNext (parse : ElfImage → Option S) (state : List (CacheAttempt S) × ElfCache S)
    (insertion : MemoryMap × ElfImage) : Checked (List (CacheAttempt S) × ElfCache S) := do
  let (result, cache) ← state.2.insertReader parse insertion.1 insertion.2
  return (state.1 ++ [⟨insertion.1, insertion.2, result⟩], cache)

/-- Insertions into the empty cache, one after another. -/
def insertAll (parse : ElfImage → Option S) (insertions : List (MemoryMap × ElfImage)) :
    Checked (List (CacheAttempt S) × ElfCache S) :=
  insertions.foldlM (insertNext parse) ([], empty)

end ElfCache

/-! ### What was inserted for a file -/

section Attempts

variable {S : Type} {attempts : List (CacheAttempt S)} {attempt : CacheAttempt S}
  {file : MappedFileId}

/-- The rejected insertions for a mapped file. -/
def rejectedFor (attempts : List (CacheAttempt S)) (file : MappedFileId) : List (CacheAttempt S) :=
  (attemptsFor attempts file).filter fun attempt => attempt.result.isNone

theorem attemptsFor_concat_self (h : attempt.Accepted) :
    attemptsFor (attempts ++ [attempt]) attempt.map.mappedFileId =
      attemptsFor attempts attempt.map.mappedFileId ++ [attempt] := by
  have hself : decide (attempt.map.mappedFileId = attempt.map.mappedFileId ∧ attempt.Accepted) :=
    decide_eq_true ⟨rfl, h⟩
  rw [attemptsFor, List.filter_append, List.filter_singleton, hself]
  rfl

theorem attemptsFor_concat_of_not (h : ¬ (attempt.map.mappedFileId = file ∧ attempt.Accepted)) :
    attemptsFor (attempts ++ [attempt]) file = attemptsFor attempts file := by
  rw [attemptsFor, List.filter_append, List.filter_cons_of_neg (by simpa using h),
    List.filter_nil, List.append_nil]
  rfl

/-- An insertion concerns no other file. -/
theorem attemptsFor_concat_ne (h : file ≠ attempt.map.mappedFileId) :
    attemptsFor (attempts ++ [attempt]) file = attemptsFor attempts file :=
  attemptsFor_concat_of_not fun hfile => h hfile.1.symm

theorem rejectedFor_concat_of_none (h : attempt.Accepted) (hresult : attempt.result = none) :
    rejectedFor (attempts ++ [attempt]) attempt.map.mappedFileId =
      rejectedFor attempts attempt.map.mappedFileId ++ [attempt] := by
  rw [rejectedFor, attemptsFor_concat_self h, List.filter_append, List.filter_singleton, hresult]
  rfl

/-- An insertion that succeeds rejects nothing. -/
theorem rejectedFor_concat_of_some {symbols : S} (hresult : attempt.result = some symbols) :
    rejectedFor (attempts ++ [attempt]) file = rejectedFor attempts file := by
  by_cases h : attempt.map.mappedFileId = file ∧ attempt.Accepted
  · obtain ⟨rfl, haccepted⟩ := h
    rw [rejectedFor, attemptsFor_concat_self haccepted, List.filter_append, List.filter_singleton,
      hresult]
    exact List.append_nil _
  · rw [rejectedFor, attemptsFor_concat_of_not h]
    rfl

end Attempts

/-! ## What every run keeps -/

namespace ElfCache

variable {S : Type} {parse : ElfImage → Option S} {attempts : List (CacheAttempt S)}
  {cache : ElfCache S}

/-- The cache after the insertions: it is bounded, what it has parsed was inserted, and what it knows
of a mapped file is what was last inserted for it. -/
structure Valid (parse : ElfImage → Option S) (attempts : List (CacheAttempt S))
    (cache : ElfCache S) : Prop where
  entries_le : cache.entries.size ≤ maxFiles
  lengths_le : (cache.lengths.map UInt64.toNat).sum ≤ maxCacheBytes
  failures_le : cache.failures.size ≤ maxFiles
  parsed : ∀ identity symbols, cache.entries.get? identity = some symbols →
    ∃ attempt ∈ attempts, attempt.file.identity = identity ∧
      parseReader parse attempt.file = some symbols
  mapped : ∀ file identity, cache.mappings.get? file = some identity → identity.IsOf file ∧
    ∃ attempt symbols, (attemptsFor attempts file).getLast? = some attempt ∧
      attempt.file.identity = identity ∧ attempt.result = some symbols ∧
      cache.entries.get? identity = some symbols
  failed : ∀ file identity, cache.failures.get? file = some identity →
    ∃ attempt, (rejectedFor attempts file).getLast? = some attempt ∧
      attempt.file.identity = identity

theorem valid_empty : Valid parse [] empty where
  entries_le := Nat.zero_le _
  lengths_le := Nat.zero_le _
  failures_le := Nat.zero_le _
  parsed _ _ h := by cases h
  mapped _ _ h := by cases h
  failed _ _ h := by cases h

/-- What was parsed stays inserted. -/
theorem Valid.parsed_concat (h : Valid parse attempts cache) (attempt : CacheAttempt S)
    {identity : ElfFileId} {symbols : S} (hget : cache.entries.get? identity = some symbols) :
    ∃ a ∈ attempts ++ [attempt], a.file.identity = identity ∧
      parseReader parse a.file = some symbols := by
  obtain ⟨a, ha, hparsed⟩ := h.parsed identity symbols hget
  exact ⟨a, List.mem_append_left _ ha, hparsed⟩

/-- A refused insertion changes nothing. -/
theorem Valid.refuse (h : Valid parse attempts cache) {attempt : CacheAttempt S}
    (hrefused : ¬ attempt.Accepted) : Valid parse (attempts ++ [attempt]) cache where
  entries_le := h.entries_le
  lengths_le := h.lengths_le
  failures_le := h.failures_le
  parsed _ _ hget := h.parsed_concat attempt hget
  mapped file identity hget := by
    rw [attemptsFor_concat_of_not fun hfile => hrefused hfile.2]
    exact h.mapped file identity hget
  failed file identity hget := by
    rw [rejectedFor, attemptsFor_concat_of_not fun hfile => hrefused hfile.2]
    exact h.failed file identity hget

/-- A rejected version becomes the last rejected one, and the file has no current version. -/
theorem Valid.reject (h : Valid parse attempts cache) {attempt : CacheAttempt S}
    (haccepted : attempt.Accepted) (hresult : attempt.result = none) :
    Valid parse (attempts ++ [attempt])
      (cache.reject attempt.map.mappedFileId attempt.file.identity) where
  entries_le := h.entries_le
  lengths_le := h.lengths_le
  failures_le := by
    refine OrderedMap.size_set_le_of_lt ?_ _ _
    split
    · exact Nat.zero_lt_succ _
    · next hroom => exact Nat.lt_of_not_le hroom
  parsed _ _ hget := h.parsed_concat _ hget
  mapped file identity hget := by
    by_cases hfile : file = attempt.map.mappedFileId
    · rw [ElfCache.reject, hfile, OrderedMap.get?_erase_self] at hget
      cases hget
    · rw [ElfCache.reject, OrderedMap.get?_erase_ne _ hfile] at hget
      rw [attemptsFor_concat_ne hfile]
      exact h.mapped file identity hget
  failed file identity hget := by
    by_cases hfile : file = attempt.map.mappedFileId
    · subst hfile
      rw [ElfCache.reject, OrderedMap.get?_set_self] at hget
      refine ⟨attempt, ?_, Option.some.inj hget⟩
      rw [rejectedFor_concat_of_none haccepted hresult]
      exact List.getLast?_concat
    · rw [ElfCache.reject, OrderedMap.get?_set_ne _ hfile] at hget
      rw [rejectedFor, attemptsFor_concat_ne hfile]
      split at hget
      · cases hget
      · exact h.failed file identity hget

/-- The versions that were rejected last, when an insertion succeeds. -/
theorem Valid.failed_concat (h : Valid parse attempts cache) {attempt : CacheAttempt S}
    {symbols : S} (hresult : attempt.result = some symbols) {file : MappedFileId}
    {identity : ElfFileId} (hget : cache.failures.get? file = some identity) :
    ∃ a, (rejectedFor (attempts ++ [attempt]) file).getLast? = some a ∧
      a.file.identity = identity := by
  rw [rejectedFor_concat_of_some hresult]
  exact h.failed file identity hget

/-- A version that is parsed becomes the current one. -/
theorem Valid.point (h : Valid parse attempts cache) {attempt : CacheAttempt S} {symbols : S}
    (haccepted : attempt.Accepted) (hresult : attempt.result = some symbols)
    (hentry : cache.entries.get? attempt.file.identity = some symbols) :
    Valid parse (attempts ++ [attempt])
      (cache.point attempt.map.mappedFileId attempt.file.identity) where
  entries_le := h.entries_le
  lengths_le := h.lengths_le
  failures_le := h.failures_le
  parsed _ _ hget := h.parsed_concat _ hget
  mapped file identity hget := by
    by_cases hfile : file = attempt.map.mappedFileId
    · subst hfile
      rw [ElfCache.point, OrderedMap.get?_set_self, Option.some.injEq] at hget
      subst hget
      refine ⟨haccepted, attempt, symbols, ?_, rfl, hresult, hentry⟩
      rw [attemptsFor_concat_self haccepted]
      exact List.getLast?_concat
    · rw [ElfCache.point, OrderedMap.get?_set_ne _ hfile] at hget
      rw [attemptsFor_concat_ne hfile]
      exact h.mapped file identity hget
  failed _ _ hget := h.failed_concat hresult hget

/-- The total of the lengths is computed without overflow. -/
theorem Valid.yields_isFull (h : Valid parse attempts cache) (identity : ElfFileId) :
    Yields (fun _ => False) (cache.isFull identity) fun full => full = false →
      cache.entries.size < maxFiles ∧
        (cache.lengths.map UInt64.toNat).sum + identity.fileLength.toNat ≤ maxCacheBytes := by
  have hlengths := h.lengths_le
  have hbound : maxCacheBytes < 2 ^ 64 - 1 := by decide
  rw [ElfCache.isFull]
  refine Yields.ite (fun _ => Yields.ok fun hfull => Bool.noConfusion hfull) fun hsize => ?_
  refine (yields_sumU64 (by omega)).bind fun total htotal => Yields.ok fun hfull => ?_
  have hle := Nat.le_of_not_lt (of_decide_eq_false hfull)
  rw [toNat_saturatingAdd, htotal] at hle
  exact ⟨Nat.lt_of_not_le hsize, by omega⟩

/-- A rejected version may be forgotten. -/
theorem Valid.forget (h : Valid parse attempts cache) (file : MappedFileId) :
    Valid parse attempts { cache with failures := cache.failures.erase file } where
  entries_le := h.entries_le
  lengths_le := h.lengths_le
  failures_le := (OrderedMap.size_erase_le _ _).trans h.failures_le
  parsed := h.parsed
  mapped := h.mapped
  failed other identity hget := by
    by_cases hother : other = file
    · rw [hother, OrderedMap.get?_erase_self] at hget
      cases hget
    · rw [OrderedMap.get?_erase_ne _ hother] at hget
      exact h.failed other identity hget

/-- All parsed files may be dropped together with the mapped ones. -/
theorem Valid.clear (h : Valid parse attempts cache) :
    Valid parse attempts { cache with entries := .empty, mappings := .empty } where
  entries_le := Nat.zero_le _
  lengths_le := Nat.zero_le _
  failures_le := h.failures_le
  parsed _ _ hget := by cases hget
  mapped _ _ hget := by cases hget
  failed := h.failed

/-- A parsed file for which there is room is added. -/
theorem Valid.add (h : Valid parse attempts cache) {attempt : CacheAttempt S} {symbols : S}
    (haccepted : attempt.Accepted) (hresult : attempt.result = some symbols)
    (hparsed : parseReader parse attempt.file = some symbols)
    (hmiss : cache.entries.get? attempt.file.identity = none)
    (hsize : cache.entries.size < maxFiles)
    (hlengths : (cache.lengths.map UInt64.toNat).sum + attempt.file.identity.fileLength.toNat ≤
      maxCacheBytes) :
    Valid parse (attempts ++ [attempt])
      (ElfCache.point { cache with entries := cache.entries.set attempt.file.identity symbols }
        attempt.map.mappedFileId attempt.file.identity) where
  entries_le := OrderedMap.size_set_le_of_lt hsize _ _
  lengths_le := by
    rw [lengths, ElfCache.point, OrderedMap.entries_set_of_get?_eq_none hmiss, List.map_append,
      List.map_append, List.sum_append]
    exact hlengths
  failures_le := h.failures_le
  parsed identity found hget := by
    by_cases hidentity : identity = attempt.file.identity
    · rw [ElfCache.point, hidentity, OrderedMap.get?_set_self, Option.some.injEq] at hget
      exact ⟨attempt, List.mem_append_right _ (List.mem_singleton_self _), hidentity.symm,
        hget ▸ hparsed⟩
    · rw [ElfCache.point, OrderedMap.get?_set_ne _ hidentity] at hget
      exact h.parsed_concat attempt hget
  mapped file identity hget := by
    by_cases hfile : file = attempt.map.mappedFileId
    · subst hfile
      rw [ElfCache.point, OrderedMap.get?_set_self, Option.some.injEq] at hget
      subst hget
      refine ⟨haccepted, attempt, symbols, ?_, rfl, hresult, OrderedMap.get?_set_self _ _ _⟩
      rw [attemptsFor_concat_self haccepted]
      exact List.getLast?_concat
    · rw [ElfCache.point, OrderedMap.get?_set_ne _ hfile] at hget
      obtain ⟨hof, a, found, hlast, hidentity, hfound, hentry⟩ := h.mapped file identity hget
      rw [attemptsFor_concat_ne hfile]
      refine ⟨hof, a, found, hlast, hidentity, hfound, ?_⟩
      -- The mapped version is parsed, so it is not the one that is added.
      have hne : identity ≠ attempt.file.identity := by
        rintro rfl
        rw [hmiss] at hentry
        cases hentry
      rw [ElfCache.point, OrderedMap.get?_set_ne _ hne]
      exact hentry
  failed _ _ hget := h.failed_concat hresult hget

/-- A file that is parsed fits into the cache. -/
theorem fileLength_le_of_parseReader {file : ElfImage} {symbols : S}
    (h : parseReader parse file = some symbols) :
    file.identity.fileLength.toNat ≤ maxCacheBytes := by
  rw [parseReader] at h
  split at h
  · cases h
  · next hlength => exact Nat.le_of_not_lt hlength

/-- A file that was not parsed before is loaded. -/
theorem Valid.load (h : Valid parse attempts cache) (attempt : CacheAttempt S) {symbols : S}
    (haccepted : attempt.Accepted) (hresult : attempt.result = some symbols)
    (hparsed : parseReader parse attempt.file = some symbols)
    (hmiss : cache.entries.get? attempt.file.identity = none) :
    Yields (fun _ => False) (cache.load attempt.map.mappedFileId attempt.file.identity symbols)
      fun loaded => Valid parse (attempts ++ [attempt])
        (loaded.point attempt.map.mappedFileId attempt.file.identity) := by
  refine (h.yields_isFull attempt.file.identity).bind fun full hroom => Yields.ok ?_
  have hforgot := h.forget attempt.map.mappedFileId
  cases full with
  | false =>
    obtain ⟨hsize, hlengths⟩ := hroom rfl
    exact hforgot.add haccepted hresult hparsed hmiss hsize hlengths
  | true =>
    refine hforgot.clear.add haccepted hresult hparsed rfl (Nat.zero_lt_succ _) ?_
    exact (Nat.zero_add _).trans_le (fileLength_le_of_parseReader hparsed)

/-- What an insertion returns and leaves. -/
theorem Valid.insertReader (h : Valid parse attempts cache) (map : MemoryMap) (file : ElfImage) :
    Yields (fun _ => False) (cache.insertReader parse map file)
      fun inserted => Valid parse (attempts ++ [⟨map, file, inserted.1⟩]) inserted.2 := by
  rw [ElfCache.insertReader]
  refine Yields.ite (fun hrefused => Yields.ok (h.refuse hrefused)) fun haccepted => ?_
  rw [not_not] at haccepted
  cases hentry : cache.entries.get? file.identity with
  | some symbols => exact Yields.ok (h.point haccepted rfl hentry)
  | none =>
    cases hparsed : parseReader parse file with
    | none => exact Yields.ok (h.reject haccepted rfl)
    | some symbols =>
      have hload := h.load ⟨map, file, some symbols⟩ haccepted rfl hparsed hentry
      exact hload.bind fun loaded hloaded => Yields.ok hloaded

/-- Every run of insertions succeeds and leaves a valid cache. -/
theorem yields_insertAll (parse : ElfImage → Option S)
    (insertions : List (MemoryMap × ElfImage)) :
    Yields (fun _ => False) (insertAll parse insertions) fun state =>
      state.1.map (fun attempt => (attempt.map, attempt.file)) = insertions ∧
        Valid parse state.1 state.2 := by
  refine Yields.foldlM (fun done (state : List (CacheAttempt S) × ElfCache S) =>
    state.1.map (fun attempt => (attempt.map, attempt.file)) = done ∧
      Valid parse state.1 state.2) insertions ⟨rfl, valid_empty⟩ ?_
  intro before insertion after state _ hstate
  obtain ⟨hdone, hvalid⟩ := hstate
  refine (hvalid.insertReader insertion.1 insertion.2).bind fun inserted hinserted => Yields.ok ?_
  refine ⟨?_, hinserted⟩
  rw [List.map_append, hdone]
  rfl

/-! ## What is served -/

/-- The symbols of a mapped file are those of its current version. -/
theorem get_eq_some_iff {map : MemoryMap} {symbols : S} : cache.get map = some symbols ↔
    ∃ identity, cache.mappings.get? map.mappedFileId = some identity ∧
      cache.entries.get? identity = some symbols :=
  Option.bind_eq_some_iff

/-- A version that is served is known. -/
theorem identity_eq_of_get {map : MemoryMap} {identity : ElfFileId} {symbols : S}
    (hmapped : cache.mappings.get? map.mappedFileId = some identity)
    (hentry : cache.entries.get? identity = some symbols) : cache.identity map = some identity := by
  rw [ElfCache.identity, hmapped, Option.filter_some_pos (by rw [hentry]; rfl)]
  rfl

/-- Where nothing is served, only a rejected version is known. -/
theorem identity_eq_of_get_eq_none {map : MemoryMap} (h : cache.get map = none) :
    cache.identity map = cache.failures.get? map.mappedFileId := by
  rw [ElfCache.identity]
  cases hmapped : cache.mappings.get? map.mappedFileId with
  | none => rfl
  | some identity =>
    rw [ElfCache.get, hmapped, Option.bind_some] at h
    rw [Option.filter_some_neg (by rw [h]; rfl)]
    rfl

/-- What is served of a mapped file is what was last inserted for it. -/
theorem Valid.served (h : Valid parse attempts cache) {map : MemoryMap} {symbols : S}
    (hget : cache.get map = some symbols) :
    ∃ attempt, (attemptsFor attempts map.mappedFileId).getLast? = some attempt ∧
      attempt.result = some symbols ∧ cache.identity map = some attempt.file.identity ∧
      ∃ inserted ∈ attempts, inserted.file.identity = attempt.file.identity ∧
        parseReader parse inserted.file = some symbols := by
  obtain ⟨identity, hmapped, hentry⟩ := get_eq_some_iff.mp hget
  obtain ⟨-, attempt, found, hlast, rfl, hfound, hfoundEntry⟩ := h.mapped _ _ hmapped
  obtain rfl : found = symbols := Option.some.inj (hfoundEntry.symm.trans hentry)
  exact ⟨attempt, hlast, hfound, identity_eq_of_get hmapped hentry, h.parsed _ _ hentry⟩

/-- After any insertions the cache is within its bounds, each mapped version is a parsed one of its
file, and what is served of a file is the version that was last inserted for it; nothing is served
after that was rejected, and a known version is the one that is served, or the last rejected one
while none is served.  An insertion of a version that is not one of the mapped file is refused: it
returns nothing and leaves the cache as it is. -/
theorem insertAll_current (parse : ElfImage → Option S)
    (insertions : List (MemoryMap × ElfImage)) :
    ∃ attempts cache, insertAll parse insertions = .ok (attempts, cache) ∧
      attempts.map (fun attempt => (attempt.map, attempt.file)) = insertions ∧
      (cache.entries.size ≤ 64 ∧ (cache.lengths.map UInt64.toNat).sum ≤ 128 * 1024 * 1024 ∧
        cache.failures.size ≤ 64) ∧
      (∀ file identity, cache.mappings.get? file = some identity →
        identity.IsOf file ∧ (cache.entries.get? identity).isSome) ∧
      (∀ map symbols, cache.get map = some symbols →
        ∃ attempt, (attemptsFor attempts map.mappedFileId).getLast? = some attempt ∧
          attempt.result = some symbols ∧ cache.identity map = some attempt.file.identity ∧
          ∃ inserted ∈ attempts, inserted.file.identity = attempt.file.identity ∧
            parseReader parse inserted.file = some symbols) ∧
      (∀ map attempt, (attemptsFor attempts map.mappedFileId).getLast? = some attempt →
        attempt.result = none → cache.get map = none) ∧
      (∀ map identity, cache.get map = none → cache.identity map = some identity →
        ∃ attempt, (rejectedFor attempts map.mappedFileId).getLast? = some attempt ∧
          attempt.file.identity = identity) ∧
      ∀ map (file : ElfImage), ¬ file.identity.IsOf map.mappedFileId →
        cache.insertReader parse map file = .ok (none, cache) := by
  have hrun := yields_insertAll parse insertions
  obtain ⟨⟨attempts, cache⟩, hok, hattempts, hvalid⟩ := Yields.exists_ok hrun
  refine ⟨attempts, cache, hok, hattempts,
    ⟨hvalid.entries_le, hvalid.lengths_le, hvalid.failures_le⟩, ?_, fun _ _ => hvalid.served,
    ?_, ?_, fun _ _ hrefused => if_pos hrefused⟩
  · intro file identity hmapped
    obtain ⟨hof, -, symbols, -, -, -, hentry⟩ := hvalid.mapped file identity hmapped
    rw [hentry]
    exact ⟨hof, rfl⟩
  · intro map attempt hlast hresult
    by_contra hget
    obtain ⟨symbols, hget⟩ := Option.ne_none_iff_exists'.mp hget
    obtain ⟨served, hserved, hsymbols, -⟩ := hvalid.served hget
    obtain rfl := Option.some.inj (hlast.symm.trans hserved)
    rw [hresult] at hsymbols
    cases hsymbols
  · intro map identity hget hidentity
    rw [identity_eq_of_get_eq_none hget] at hidentity
    exact hvalid.failed _ _ hidentity

/-- A map of the inode 1 of the device 0. -/
def exampleMap : MemoryMap where
  start := 0x1000
  stop := 0x2000
  readable := true
  writable := false
  executable := true
  isPrivate := true
  fileOffset := 0
  device := ⟨0, 0⟩
  inode := 1
  pathname := none

/-- An empty version of an inode of the device 0. -/
def exampleImage (inode : UInt64) : ElfImage := ⟨(0, inode, 0, 0, 0), []⟩

/-- A version that is not one of the mapped file is refused, and the version before it is still
served. -/
theorem get_after_refusedInsertion : ¬ ∀ (parse : ElfImage → Option Unit)
    (insertions : List (MemoryMap × ElfImage)) (attempts : List (CacheAttempt Unit))
    (cache : ElfCache Unit) (attempt : CacheAttempt Unit),
    insertAll parse insertions = .ok (attempts, cache) →
    (attempts.filter fun a => a.map.mappedFileId = attempt.map.mappedFileId).getLast? =
      some attempt →
    attempt.result = none → cache.get attempt.map = none := by
  intro h
  have hget := h (fun _ => some ()) [(exampleMap, exampleImage 1), (exampleMap, exampleImage 2)]
    [⟨exampleMap, exampleImage 1, some ()⟩, ⟨exampleMap, exampleImage 2, none⟩]
    ⟨OrderedMap.empty.set (exampleImage 1).identity (),
      OrderedMap.empty.set exampleMap.mappedFileId (exampleImage 1).identity, .empty⟩
    ⟨exampleMap, exampleImage 2, none⟩ rfl rfl rfl
  exact absurd hget (by decide)

end ElfCache

end Procinsh
