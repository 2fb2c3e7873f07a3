import Procinsh.Elf.Selecting
import Procinsh.Foundation.Intervals

/-!
# What an image can be read for

The chunks that are received may overlap, touch, contain each other or be empty, in any order.  What
an image keeps of them are intervals with gaps between them, so that a range of the file is read
exactly if all of its bytes were received, from whichever chunks.

Only the chunks are taken from the file; the length that the identity states need not be that of the
file.  What is read is compared with the file cut or filled to that length, which has the same bytes
wherever one was received.
-/

namespace Procinsh

open Ipc

/-! ## Pieces of a file -/

/-- A chunk has the bytes of the file at its offset. -/
def Ipc.FileChunk.IsPieceOf (content : List UInt8) (c : FileChunk) : Prop :=
  c.bytes = contentAt content c.offset.toNat c.bytes.length

instance (content : List UInt8) (c : FileChunk) : Decidable (c.IsPieceOf content) :=
  inferInstanceAs (Decidable (_ = _))

/-- The byte of a file is in one of the chunks. -/
def ReceivedAt (chunks : List FileChunk) (x : ℕ) : Prop :=
  ∃ c ∈ chunks, c.offset.toNat ≤ x ∧ x < c.offset.toNat + c.bytes.length

/-- The file, cut or filled to a length. -/
def resized (content : List UInt8) (length : ℕ) : List UInt8 :=
  (content ++ List.replicate length 0).take length

section Pieces

variable {content : List UInt8} {chunks : List FileChunk} {c : FileChunk}

theorem Ipc.FileChunk.IsPieceOf.length_le (h : c.IsPieceOf content) :
    c.bytes.length ≤ content.length := by
  rw [h, contentAt, List.length_take, List.length_drop]
  omega

/-- A byte that was received is in the file. -/
theorem Ipc.FileChunk.IsPieceOf.lt_length (h : c.IsPieceOf content) {x : ℕ}
    (hx : x < c.offset.toNat + c.bytes.length) (hlo : c.offset.toNat ≤ x) : x < content.length := by
  have hlength := congrArg List.length h
  rw [contentAt, List.length_take, List.length_drop] at hlength
  omega

theorem length_resized (content : List UInt8) (length : ℕ) :
    (resized content length).length = length := by
  rw [resized, List.length_take, List.length_append, List.length_replicate]
  omega

/-- Resizing keeps the bytes that are before both ends. -/
theorem contentAt_resized {length offset n : ℕ} (hfile : offset + n ≤ content.length)
    (hlength : offset + n ≤ length) :
    contentAt (resized content length) offset n = contentAt content offset n := by
  rw [contentAt, contentAt, resized, List.drop_take, List.take_take, Nat.min_eq_left (by omega),
    List.drop_append_of_le_length (by omega), List.take_append_of_le_length]
  rw [List.length_drop]
  omega

theorem getElem?_resized {length x : ℕ} (hfile : x < content.length) (hlength : x < length) :
    (resized content length)[x]? = content[x]? := by
  rw [resized, List.getElem?_take_of_lt hlength, List.getElem?_append_left hfile]

/-- A chunk of the file is a slice of the resized file, up to the end of that. -/
theorem Ipc.FileChunk.IsPieceOf.isSlice (h : c.IsPieceOf content) (hc : c ∈ chunks) {length : ℕ}
    (hin : c.offset.toNat + c.bytes.length ≤ length) :
    IsSlice (resized content length) (ReceivedAt chunks) c := by
  refine ⟨?_, ?_, fun x hlo hhi => ⟨c, hc, hlo, hhi⟩⟩
  · rw [length_resized]
    exact hin
  · by_cases hempty : c.bytes = []
    · rw [hempty, contentAt]
      exact List.take_zero.symm
    · have hpos := List.length_pos_iff.mpr hempty
      have hend := h.lt_length (x := c.offset.toNat + c.bytes.length - 1) (by omega) (by omega)
      rw [contentAt_resized (by omega) hin]
      exact h

end Pieces

/-! ## What the chunks of an image are -/

/-- A chunk is added only if it ends within the length that the identity states. -/
theorem yields_mergeChunk_inFile (fileLength : UInt64) (merged : List FileChunk) (c : FileChunk) :
    Yields (fun _ => True) (ElfImage.mergeChunk fileLength merged c) fun _ =>
      c.offset.toNat + c.length.toNat ≤ fileLength.toNat := by
  unfold ElfImage.mergeChunk
  have hadd : Yields (fun _ => True) (checkedAdd c.offset c.length "ELF range overflow")
      fun stop => stop.toNat = c.offset.toNat + c.length.toNat :=
    (yields_checkedAdd _ _ _).imp fun _ _ => True.intro
  refine hadd.bind fun stop hstop => ?_
  refine Yields.bind (P := fun _ => stop ≤ fileLength) ?_ fun _ hin => ?_
  · exact (yields_ensure _ _).imp fun _ _ => True.intro
  · refine (Yields.trivial _).mono fun _ _ => ?_
    rw [← hstop]
    exact UInt64.le_iff_toNat_le.mp hin

/-- All chunks that are added end within the length that the identity states. -/
theorem yields_extend_inFile (image : ElfImage) (data : MappedFileData) :
    Yields (fun _ => True) (image.extend data) fun _ => ∀ c ∈ data.chunks,
      c.offset.toNat + c.length.toNat ≤ image.identity.fileLength.toNat := by
  unfold ElfImage.extend
  refine (Yields.trivial _).bind fun _ _ => ?_
  dsimp only
  have hmem (c : FileChunk) (hc : c ∈ data.chunks) :
      c ∈ (image.chunks ++ data.chunks).mergeSort fun a b => decide (a.offset ≤ b.offset) :=
    List.mem_mergeSort.mpr (List.mem_append_right _ hc)
  generalize (image.chunks ++ data.chunks).mergeSort _ = chunks at hmem ⊢
  have hloop : Yields (fun _ => True)
      (chunks.foldlM (ElfImage.mergeChunk image.identity.fileLength) []) fun _ =>
        ∀ c ∈ chunks, c.offset.toNat + c.length.toNat ≤ image.identity.fileLength.toNat := by
    refine Yields.foldlM (fun before _ => ∀ c ∈ before,
      c.offset.toNat + c.length.toNat ≤ image.identity.fileLength.toNat) chunks ?_ ?_
    · exact fun c hc => absurd hc List.not_mem_nil
    · intro before c after merged _ hbefore
      refine (yields_mergeChunk_inFile _ _ _).mono fun _ hc => ?_
      exact List.forall_mem_append.mpr ⟨hbefore, List.forall_mem_singleton.mpr hc⟩
  refine hloop.bind fun merged hall => ?_
  exact (Yields.trivial _).mono fun _ _ c hc => hall c (hmem c hc)

/-- The chunks of an image are what was received, with gaps between them. -/
structure Gathers (content : List UInt8) (length : ℕ) (chunks : List FileChunk)
    (image : ElfImage) : Prop where
  imageOf : ImageOf (resized content length) (ReceivedAt chunks) image
  behind : image.chunks.Pairwise fun before c => c.Behind before
  covers : ∀ c ∈ chunks, image.Covers c.offset.toNat (c.offset.toNat + c.bytes.length)

section Gathered

variable {content : List UInt8} {length : ℕ} {chunks : List FileChunk} {image image' : ElfImage}

/-- The bytes of more chunks. -/
theorem ReceivedAt.append {x : ℕ} (h : ReceivedAt chunks x) (more : List FileChunk) :
    ReceivedAt (chunks ++ more) x := by
  obtain ⟨c, hc, hx⟩ := h
  exact ⟨c, List.mem_append_left _ hc, hx⟩

/-- An image without chunks. -/
theorem gathers_nil (identity : ElfFileId) (hfits : identity.fileLength.toNat ≤ maxFileSize) :
    Gathers content identity.fileLength.toNat [] ⟨identity, []⟩ where
  imageOf := ⟨(length_resized _ _).trans_le hfits, (length_resized _ _).symm,
    fun _ hc => absurd hc List.not_mem_nil⟩
  behind := List.Pairwise.nil
  covers _ hc := absurd hc List.not_mem_nil

/-- Adding chunks of the file. -/
theorem Gathers.extend (h : Gathers content length chunks image) {data : MappedFileData}
    (hsize : content.length < 2 ^ 64) (hdata : ∀ c ∈ data.chunks, c.IsPieceOf content)
    (hok : image.extend data = .ok image') :
    Gathers content length (chunks ++ data.chunks) image' := by
  have himage : ImageOf (resized content length) (ReceivedAt (chunks ++ data.chunks)) image :=
    h.imageOf.mono fun x hx => hx.append data.chunks
  have hslices (c : FileChunk) (hc : c ∈ data.chunks) :
      IsSlice (resized content length) (ReceivedAt (chunks ++ data.chunks)) c := by
    have hin := (yields_extend_inFile image data).of_eq hok c hc
    have hlength : c.length.toNat = c.bytes.length :=
      UInt64.toNat_ofNat_of_lt' ((hdata c hc).length_le.trans_lt hsize)
    rw [hlength, himage.length, length_resized] at hin
    exact (hdata c hc).isSlice (List.mem_append_right _ hc) hin
  obtain ⟨himage', hkept, hadded, hbehind⟩ := (yields_extend himage hslices).of_eq hok
  refine ⟨himage', hbehind, List.forall_mem_append.mpr ⟨fun c hc => ?_, fun c hc => ?_⟩⟩
  · exact hkept _ _ (h.covers c hc)
  · exact hadded c hc _ _ ⟨le_rfl, le_rfl⟩

theorem Gathers.new {data : MappedFileData} (hsize : content.length < 2 ^ 64)
    (hdata : ∀ c ∈ data.chunks, c.IsPieceOf content) (hok : ElfImage.new data = .ok image) :
    Gathers content data.identity.fileLength.toNat data.chunks image := by
  rw [ElfImage.new, ensure] at hok
  split at hok
  · next hfits => exact (gathers_nil data.identity hfits).extend hsize hdata hok
  · cases hok

/-- Adding chunks of the file again and again. -/
theorem Gathers.extendAll (h : Gathers content length chunks image) {datas : List MappedFileData}
    (hsize : content.length < 2 ^ 64)
    (hdatas : ∀ data ∈ datas, ∀ c ∈ data.chunks, c.IsPieceOf content)
    (hok : datas.foldlM ElfImage.extend image = .ok image') :
    Gathers content length (chunks ++ datas.flatMap MappedFileData.chunks) image' := by
  induction datas generalizing image chunks with
  | nil =>
    cases hok
    rw [List.flatMap_nil, List.append_nil]
    exact h
  | cons data datas ih =>
    obtain ⟨hdata, hdatas⟩ := List.forall_mem_cons.mp hdatas
    rw [List.foldlM_cons] at hok
    cases hnext : image.extend data with
    | error failure =>
      rw [hnext] at hok
      cases hok
    | ok next =>
      rw [hnext] at hok
      rw [List.flatMap_cons, ← List.append_assoc]
      exact ih (h.extend hsize hdata hnext) hdatas hok

/-! ## Reading -/

/-- The chunks of an image are intervals with gaps between them. -/
theorem Gathers.separated (h : Gathers content length chunks image) :
    Separated (fun c => c.offset.toNat) (fun c => c.offset.toNat + c.bytes.length) image.chunks :=
  h.behind

/-- A range is in one chunk of the image exactly if all of its bytes were received. -/
theorem Gathers.covers_iff (h : Gathers content length chunks image) {lo hi : ℕ} (hlt : lo < hi) :
    image.Covers lo hi ↔ ∀ x, lo ≤ x → x < hi → ReceivedAt chunks x := by
  constructor
  · rintro ⟨c, hc, hstart, hstop⟩ x hlo hhi
    exact (h.imageOf.chunks c hc).received x (hstart.trans hlo) (hhi.trans_le hstop)
  · intro hall
    refine h.separated.exists_spanning hlt fun x hlo hhi => ?_
    obtain ⟨c, hc, hcx⟩ := hall x hlo hhi
    obtain ⟨c', hc', hspans⟩ := h.covers c hc
    exact ⟨c', hc', hspans.1.trans hcx.1, hcx.2.trans_le hspans.2⟩

/-- What was received is in the file, and within the length that the identity states. -/
theorem Gathers.le_of_covers (h : Gathers content length chunks image)
    (hchunks : ∀ c ∈ chunks, c.IsPieceOf content) {lo hi : ℕ} (hcovers : image.Covers lo hi)
    (hlt : lo < hi) : hi ≤ content.length ∧ hi ≤ length := by
  have hin := hcovers.le_length h.imageOf
  rw [length_resized] at hin
  obtain ⟨c, hc, hlo, hhi⟩ := (h.covers_iff hlt).mp hcovers (hi - 1) (by omega) (by omega)
  have hfile := (hchunks c hc).lt_length hhi hlo
  exact ⟨by omega, hin⟩

theorem Gathers.contentAt_eq (h : Gathers content length chunks image)
    (hchunks : ∀ c ∈ chunks, c.IsPieceOf content) {offset n : ℕ}
    (hcovers : image.Covers offset (offset + n)) (hn : n ≠ 0) :
    contentAt (resized content length) offset n = contentAt content offset n := by
  obtain ⟨hfile, hlength⟩ := h.le_of_covers hchunks hcovers (by omega)
  exact contentAt_resized hfile hlength

/-- A range is read exactly if all of its bytes were received. -/
theorem Gathers.readBytesAt (h : Gathers content length chunks image)
    (hchunks : ∀ c ∈ chunks, c.IsPieceOf content) (offset : UInt64) {size : UInt64}
    (hsize : size ≠ 0) : ∃ read, image.readBytesAt offset size = .ok read ∧
      ∀ bytes, read = some bytes ↔
        (∀ x, offset.toNat ≤ x → x < offset.toNat + size.toNat → ReceivedAt chunks x) ∧
          bytes = contentAt content offset.toNat size.toNat := by
  have hpos : size.toNat ≠ 0 := fun hzero => hsize (UInt64.toNat_inj.mp hzero)
  obtain ⟨read, hok, hsome, hnone⟩ := Yields.exists_ok (yields_readBytesAt h.imageOf offset size)
  refine ⟨read, hok, fun bytes => ?_⟩
  rw [← h.covers_iff (by omega)]
  constructor
  · intro hread
    obtain ⟨hbytes, hcovers⟩ := hsome bytes hread
    refine ⟨hcovers hsize, ?_⟩
    rw [hbytes, h.contentAt_eq hchunks (hcovers hsize) hpos]
  · rintro ⟨hcovers, rfl⟩
    cases read with
    | none => exact absurd hcovers (hnone rfl hsize)
    | some found =>
      rw [(hsome found rfl).1, h.contentAt_eq hchunks hcovers hpos]

/-- Bytes up to a delimiter are read exactly if they and the delimiter were received, and the range is
in the file. -/
theorem Gathers.readBytesAtUntil (h : Gathers content length chunks image)
    (hchunks : ∀ c ∈ chunks, c.IsPieceOf content) (start stop : UInt64) (delimiter : UInt8) :
    ∃ read, image.readBytesAtUntil start stop delimiter = .ok read ∧
      ∀ bytes, read = some bytes ↔ stop.toNat ≤ length ∧
        start.toNat + bytes.length < stop.toNat ∧
        (∀ x, start.toNat ≤ x → x ≤ start.toNat + bytes.length → ReceivedAt chunks x) ∧
        bytes = contentAt content start.toNat bytes.length ∧ delimiter ∉ bytes ∧
        content[start.toNat + bytes.length]? = some delimiter := by
  have hlength : image.identity.fileLength.toNat = length :=
    h.imageOf.length.trans (length_resized _ _)
  obtain ⟨read, hok, hread⟩ :=
    Yields.exists_ok (yields_readBytesAtUntil h.imageOf start stop delimiter)
  refine ⟨read, hok, fun bytes => ?_⟩
  rw [hread]
  constructor
  · intro hbytes
    split at hbytes
    · cases hbytes
    · next hrange =>
      rw [not_or, UInt64.lt_iff_toNat_lt, UInt64.lt_iff_toNat_lt, hlength] at hrange
      obtain ⟨hcovers, hin, hbytes, hnot, hdelimiter⟩ := h.imageOf.exists_of_readUntil hbytes
      obtain ⟨hfile, hlt⟩ := h.le_of_covers hchunks hcovers (by omega)
      rw [contentAt_resized (by omega) (by omega)] at hbytes
      rw [getElem?_resized (by omega) (by omega)] at hdelimiter
      refine ⟨by omega, hin, fun x hlo hhi => ?_, hbytes, hnot, hdelimiter⟩
      exact (h.covers_iff (by omega)).mp hcovers x hlo (by omega)
  · rintro ⟨hstop, hin, hall, hbytes, hnot, hdelimiter⟩
    have hcovers : image.Covers start.toNat (start.toNat + bytes.length + 1) :=
      (h.covers_iff (by omega)).mpr fun x hlo hhi => hall x hlo (by omega)
    obtain ⟨hfile, hlt⟩ := h.le_of_covers hchunks hcovers (by omega)
    obtain ⟨c, hc, hspans⟩ := hcovers
    have hfirst : c.Spans start.toNat (start.toNat + 1) := ⟨hspans.1, by have := hspans.2; omega⟩
    have hfind : (image.chunks.find? fun c => c.Spans start.toNat (start.toNat + 1)) = some c := by
      cases hfound : image.chunks.find? fun c => c.Spans start.toNat (start.toNat + 1) with
      | none => exact absurd (decide_eq_true hfirst) (List.find?_eq_none.mp hfound c hc)
      | some c' =>
        have hfirst' : c'.Spans start.toNat (start.toNat + 1) :=
          of_decide_eq_true (List.find?_some hfound :)
        -- Only one chunk has the first byte.
        exact congrArg some (h.separated.eq_of_mem (List.mem_of_find?_eq_some hfound) hc
          hfirst'.1 hfirst'.2 hfirst.1 hfirst.2)
    have hrange : ¬ (stop < start ∨ image.identity.fileLength < stop) := by
      rw [not_or, UInt64.lt_iff_toNat_lt, UInt64.lt_iff_toNat_lt, hlength]
      omega
    have hcin := (h.imageOf.chunks c hc).inFile
    have hcstop := hspans.2
    have hwithin : start.toNat + (min stop.toNat (c.offset.toNat + c.bytes.length) - start.toNat) ≤
        (resized content length).length := by omega
    rw [if_neg hrange, hfind, Option.bind_some, contentUntil_eq_some_iff hwithin]
    refine ⟨by omega, ?_, hnot, ?_⟩
    · rw [contentAt_resized (by omega) (by omega)]
      exact hbytes
    · rw [getElem?_resized (by omega) (by omega)]
      exact hdelimiter

/-- When the ranges that are still missing have been added, all ranges are read. -/
theorem Gathers.readBytesAt_of_ranges (h : Gathers content length chunks image)
    {more : List FileChunk} (h' : Gathers content length (chunks ++ more) image')
    (hchunks : ∀ c ∈ chunks ++ more, c.IsPieceOf content) {needed missing : List FileRange}
    (hranges : image.ranges needed = .ok missing)
    (hmore : ∀ r ∈ missing, ∃ c ∈ more, c.offset = r.offset ∧ c.bytes.length = r.length.toNat)
    {r : FileRange} (hr : r ∈ needed) (hin : r.length ≠ 0 ∨ r.offset.toNat ≤ length) :
    image'.readBytesAt r.offset r.length =
      .ok (some (contentAt content r.offset.toNat r.length.toNat)) := by
  by_cases hzero : r.length = 0
  · have hlength : image'.identity.fileLength.toNat = length :=
      h'.imageOf.length.trans (length_resized _ _)
    have hoffset : ¬ image'.identity.fileLength < r.offset := by
      rw [UInt64.lt_iff_toNat_lt, hlength]
      exact Nat.not_lt.mpr (hin.resolve_left fun hne => hne hzero)
    rw [ElfImage.readBytesAt, if_neg hoffset, if_pos hzero, hzero]
    exact congrArg (fun bytes => Except.ok (some bytes)) (List.take_zero).symm
  · have hpos : r.length.toNat ≠ 0 := fun hnat => hzero (UInt64.toNat_inj.mp hnat)
    have hall : ∀ x, r.offset.toNat ≤ x → x < r.offset.toNat + r.length.toNat →
        ReceivedAt (chunks ++ more) x := by
      intro x hlo hhi
      rcases ((yields_ranges h.imageOf needed).of_eq hranges).2 r hr hzero with hcovers | hmissing
      · exact ((h.covers_iff (by omega)).mp hcovers x hlo hhi).append more
      · obtain ⟨q, hq, hqlo, hqhi⟩ := hmissing
        obtain ⟨c, hc, hoffset, hbytes⟩ := hmore q hq
        refine ⟨c, List.mem_append_right _ hc, ?_, ?_⟩
        · rw [hoffset]
          exact hqlo.trans hlo
        · rw [hoffset, hbytes]
          exact hhi.trans_le hqhi
    obtain ⟨read, hok, hread⟩ := h'.readBytesAt hchunks r.offset hzero
    rw [hok, (hread _).mpr ⟨hall, rfl⟩]

end Gathered

/-! ## Images that were received -/

/-- Of a file whose pieces an image was made of and extended by, in any order, the image keeps sorted
intervals with gaps between them.  It reads a range exactly if all bytes of it were received, and
the bytes before a delimiter exactly if these and the delimiter were received and the range is not
longer than the file is said to be; and when it was extended by the ranges that it asked for, it
reads all ranges that it was asked for, except for empty ones behind the file. -/
theorem ElfImage.reads_received {content : List UInt8} (hsize : content.length < 2 ^ 64)
    {first : MappedFileData} {rest : List MappedFileData} {initial image : ElfImage}
    (hnew : ElfImage.new first = .ok initial) (hextend : rest.foldlM extend initial = .ok image)
    (hpieces : ∀ data ∈ first :: rest, ∀ c ∈ data.chunks, c.IsPieceOf content) :
    Separated (fun c => c.offset.toNat) (fun c => c.offset.toNat + c.bytes.length) image.chunks ∧
    (∀ offset size, size ≠ 0 → ∃ read, image.readBytesAt offset size = .ok read ∧
      ∀ bytes, read = some bytes ↔
        (∀ x, offset.toNat ≤ x → x < offset.toNat + size.toNat →
          ReceivedAt ((first :: rest).flatMap MappedFileData.chunks) x) ∧
        bytes = contentAt content offset.toNat size.toNat) ∧
    (∀ start stop delimiter, ∃ read, image.readBytesAtUntil start stop delimiter = .ok read ∧
      ∀ bytes, read = some bytes ↔ stop.toNat ≤ first.identity.fileLength.toNat ∧
        start.toNat + bytes.length < stop.toNat ∧
        (∀ x, start.toNat ≤ x → x ≤ start.toNat + bytes.length →
          ReceivedAt ((first :: rest).flatMap MappedFileData.chunks) x) ∧
        bytes = contentAt content start.toNat bytes.length ∧ delimiter ∉ bytes ∧
        content[start.toNat + bytes.length]? = some delimiter) ∧
    ∀ needed missing (more : List MappedFileData) image', image.ranges needed = .ok missing →
      more.foldlM extend image = .ok image' →
      (∀ data ∈ more, ∀ c ∈ data.chunks, c.IsPieceOf content) →
      (∀ r ∈ missing, ∃ c ∈ more.flatMap MappedFileData.chunks,
        c.offset = r.offset ∧ c.bytes.length = r.length.toNat) →
      ∀ r ∈ needed, r.length ≠ 0 ∨ r.offset.toNat ≤ first.identity.fileLength.toNat →
        image'.readBytesAt r.offset r.length =
          .ok (some (contentAt content r.offset.toNat r.length.toNat)) := by
  obtain ⟨hfirst, hrest⟩ := List.forall_mem_cons.mp hpieces
  have h := (Gathers.new hsize hfirst hnew).extendAll hsize hrest hextend
  rw [← List.flatMap_cons] at h
  have hchunks {datas : List MappedFileData}
      (hdatas : ∀ data ∈ datas, ∀ c ∈ data.chunks, c.IsPieceOf content) :
      ∀ c ∈ datas.flatMap MappedFileData.chunks, c.IsPieceOf content := by
    intro c hc
    obtain ⟨data, hdata, hc⟩ := List.mem_flatMap.mp hc
    exact hdatas data hdata c hc
  refine ⟨h.separated, fun offset size hne => h.readBytesAt (hchunks hpieces) offset hne,
    h.readBytesAtUntil (hchunks hpieces), ?_⟩
  intro needed missing more image' hranges hmore hmorePieces hprovided r hr hin
  have hall := List.forall_mem_append.mpr ⟨hchunks hpieces, hchunks hmorePieces⟩
  exact h.readBytesAt_of_ranges (h.extendAll hsize hmorePieces hmore) hall hranges hprovided hr hin

/-- The identity of a file with three bytes. -/
def threeBytes : ElfFileId := (1, 2, 3, 4, 5)

/-- The image of a file whose first byte was received before the others. -/
def threeBytesImage : ElfImage := ⟨threeBytes, [⟨0, [7, 0, 9]⟩]⟩

theorem new_firstByte : ElfImage.new ⟨threeBytes, [⟨0, [7]⟩]⟩ = .ok ⟨threeBytes, [⟨0, [7]⟩]⟩ := by
  rw [ElfImage.new, ElfImage.extend, List.nil_append, List.mergeSort_singleton]
  rfl

theorem extend_otherBytes : ElfImage.extend ⟨threeBytes, [⟨0, [7]⟩]⟩ ⟨threeBytes, [⟨1, [0, 9]⟩]⟩ =
    .ok threeBytesImage := by
  have hsort : [(⟨0, [7]⟩ : FileChunk), ⟨1, [0, 9]⟩].mergeSort
      (fun a b => decide (a.offset ≤ b.offset)) = [⟨0, [7]⟩, ⟨1, [0, 9]⟩] :=
    List.mergeSort_of_pairwise (by decide)
  rw [ElfImage.extend, List.singleton_append, hsort]
  rfl

theorem reads_received_threeBytes : threeBytesImage.readBytesAt 0 3 = .ok (some [7, 0, 9]) := by
  have hextend : [(⟨threeBytes, [⟨1, [0, 9]⟩]⟩ : MappedFileData)].foldlM ElfImage.extend
      ⟨threeBytes, [⟨0, [7]⟩]⟩ = .ok threeBytesImage := by
    rw [List.foldlM_cons, extend_otherBytes]
    rfl
  have hpieces : ∀ data ∈ [(⟨threeBytes, [⟨0, [7]⟩]⟩ : MappedFileData),
      ⟨threeBytes, [⟨1, [0, 9]⟩]⟩], ∀ c ∈ data.chunks, c.IsPieceOf [7, 0, 9] := by
    decide
  obtain ⟨-, hreads, -⟩ := ElfImage.reads_received (by decide) new_firstByte hextend hpieces
  obtain ⟨read, hok, hread⟩ := hreads 0 3 (by decide)
  rw [hok, (hread [7, 0, 9]).mpr ⟨?_, rfl⟩]
  intro x _ hx
  cases x with
  | zero => exact ⟨⟨0, [7]⟩, List.mem_cons_self, Nat.le_refl 0, Nat.zero_lt_one⟩
  | succ x => exact ⟨⟨1, [0, 9]⟩, List.mem_cons_of_mem _ List.mem_cons_self,
      Nat.le_add_left 1 x, hx⟩

/-- A delimiter is not found in a range that ends behind the file, and an empty range behind the file is
neither asked for nor read. -/
theorem unread_behindFile :
    (¬ ∀ (content : List UInt8) (first : MappedFileData) (image : ElfImage) (start stop : UInt64)
        (delimiter : UInt8) (n : ℕ), ElfImage.new first = .ok image →
      (∀ c ∈ first.chunks, c.IsPieceOf content) → start.toNat + n < stop.toNat →
      (∀ x, start.toNat ≤ x → x ≤ start.toNat + n → ReceivedAt first.chunks x) →
      delimiter ∉ contentAt content start.toNat n → content[start.toNat + n]? = some delimiter →
      image.readBytesAtUntil start stop delimiter = .ok (some (contentAt content start.toNat n))) ∧
    ¬ ∀ (first : MappedFileData) (image : ElfImage) (needed : List FileRange),
      ElfImage.new first = .ok image → image.ranges needed = .ok [] →
      ∀ r ∈ needed, ∃ bytes, image.readBytesAt r.offset r.length = .ok (some bytes) := by
  constructor
  · intro h
    have hread := h [7] ⟨threeBytes, [⟨0, [7]⟩]⟩ _ 0 4 7 0 new_firstByte (by decide) (by decide)
      (fun x _ hx => ⟨_, List.mem_cons_self, Nat.zero_le x, Nat.lt_succ_of_le hx⟩) (by decide) rfl
    cases hread
  · intro h
    have hranges : ElfImage.ranges ⟨threeBytes, [⟨0, [7]⟩]⟩ [⟨4, 0⟩] = .ok [] := by
      have hkept : [(⟨4, 0⟩ : FileRange)].foldlM
          (ElfImage.retainMissing ⟨threeBytes, [⟨0, [7]⟩]⟩) [] = .ok [] := rfl
      have hsort : ([] : List FileRange).mergeSort (fun a b => decide (a.offset ≤ b.offset)) = [] :=
        List.mergeSort_nil
      rw [ElfImage.ranges, hkept]
      dsimp only [bind, Except.bind]
      rw [hsort]
      rfl
    obtain ⟨bytes, hbytes⟩ := h _ _ _ new_firstByte hranges ⟨4, 0⟩ (List.mem_singleton_self _)
    cases hbytes

end Procinsh
