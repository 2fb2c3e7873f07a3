import Procinsh.Elf.Image

/-!
# Reading from received ranges

The chunks of an image are slices of the file that were received.  Reading from them never panics
and gives what the file has there; a range is read exactly if one chunk has all of it.  Adding the
answer to a request keeps this, and keeps what could be read.
-/

namespace Procinsh

open Ipc

/-! ## Checked arithmetic -/

/-- A failure that is no panic, and no lack of bytes that are to be parsed. -/
def Failure.Harmless (f : Failure) : Prop :=
  ¬ f.IsPanic ∧ ∀ offset length, f = .missing offset length → length = 0

theorem Failure.harmless_error (message : String) : (Failure.error message).Harmless :=
  ⟨id, fun _ _ h => Failure.noConfusion h⟩

section Arithmetic

variable {allowed : Failure → Prop} {a b : UInt64}

theorem yields_addU64 (h : a.toNat + b.toNat < 2 ^ 64) :
    Yields allowed (addU64 a b) fun c => c.toNat = a.toNat + b.toNat := by
  rw [addU64, if_pos h]
  exact Yields.ok (by rw [UInt64.toNat_add, Nat.mod_eq_of_lt h])

theorem yields_subU64 (h : b.toNat ≤ a.toNat) :
    Yields allowed (subU64 a b) fun c => c.toNat = a.toNat - b.toNat := by
  have hle : b ≤ a := UInt64.le_iff_toNat_le.mpr h
  rw [subU64, if_pos hle]
  exact Yields.ok (UInt64.toNat_sub_of_le a b hle)

theorem yields_mulU64 (h : a.toNat * b.toNat < 2 ^ 64) :
    Yields allowed (mulU64 a b) fun c => c.toNat = a.toNat * b.toNat := by
  rw [mulU64, if_pos h]
  exact Yields.ok (by rw [UInt64.toNat_mul, Nat.mod_eq_of_lt h])

theorem yields_sliceBytes {bytes : List UInt8} {start stop : ℕ} (h : start ≤ stop)
    (hstop : stop ≤ bytes.length) : Yields allowed (sliceBytes bytes start stop)
      fun slice => slice = (bytes.drop start).take (stop - start) := by
  rw [sliceBytes, if_pos ⟨h, hstop⟩]
  exact Yields.ok rfl

theorem yields_indexBytes {bytes : List UInt8} {index : ℕ} (h : index < bytes.length) :
    Yields allowed (indexBytes bytes index) fun byte => bytes[index]? = some byte := by
  rw [indexBytes, List.getElem?_eq_getElem h]
  exact Yields.ok rfl

theorem yields_ensure (p : Prop) [Decidable p] (message : String) :
    Yields Failure.Harmless (ensure p message) fun _ => p :=
  Yields.ite (fun h => Yields.ok h) fun _ => Yields.error (Failure.harmless_error message)

theorem yields_checkedAdd (a b : UInt64) (message : String) :
    Yields Failure.Harmless (checkedAdd a b message) fun c => c.toNat = a.toNat + b.toNat := by
  refine Yields.ite (fun h => Yields.ok ?_) fun _ => Yields.error (Failure.harmless_error message)
  rw [UInt64.toNat_add, Nat.mod_eq_of_lt h]

/-- A sum of lengths that fits is added up. -/
theorem yields_sumU64 {lengths : List UInt64} (h : (lengths.map UInt64.toNat).sum < 2 ^ 64) :
    Yields allowed (sumU64 lengths) fun total => total.toNat = (lengths.map UInt64.toNat).sum := by
  refine Yields.foldlM
    (fun before (total : UInt64) => total.toNat = (before.map UInt64.toNat).sum) lengths rfl ?_
  intro before a after total hlengths htotal
  have hsum : (before.map UInt64.toNat).sum + a.toNat ≤ (lengths.map UInt64.toNat).sum := by
    rw [hlengths, List.map_append, List.sum_append, List.map_cons, List.sum_cons]
    omega
  refine (yields_addU64 (by omega)).mono fun c hc => ?_
  rw [hc, htotal, List.map_append, List.sum_append, List.map_singleton, List.sum_singleton]

end Arithmetic

/-! ## Images of a file -/

/-- The bytes of a file at an offset. -/
def contentAt (content : List UInt8) (offset length : ℕ) : List UInt8 :=
  (content.drop offset).take length

theorem length_contentAt {content : List UInt8} {offset length : ℕ}
    (h : offset + length ≤ content.length) : (contentAt content offset length).length = length := by
  rw [contentAt, List.length_take, List.length_drop]
  omega

/-- A part of the bytes at an offset. -/
theorem drop_take_contentAt {content : List UInt8} {offset length start n : ℕ}
    (h : start + n ≤ length) : ((contentAt content offset length).drop start).take n =
      contentAt content (offset + start) n := by
  rw [contentAt, contentAt, List.drop_take, List.take_take, List.drop_drop,
    Nat.min_eq_left (by omega)]

theorem drop_contentAt (content : List UInt8) (offset length start : ℕ) :
    (contentAt content offset length).drop start =
      contentAt content (offset + start) (length - start) := by
  rw [contentAt, contentAt, List.drop_take, List.drop_drop]

theorem contentAt_append (content : List UInt8) (offset m n : ℕ) :
    contentAt content offset m ++ contentAt content (offset + m) n =
      contentAt content offset (m + n) := by
  rw [contentAt, contentAt, contentAt, List.take_add, List.drop_drop]

/-- A chunk has all bytes of a range. -/
def Ipc.FileChunk.Spans (c : FileChunk) (lo hi : ℕ) : Prop :=
  c.offset.toNat ≤ lo ∧ hi ≤ c.offset.toNat + c.bytes.length

instance (c : FileChunk) (lo hi : ℕ) : Decidable (c.Spans lo hi) :=
  inferInstanceAs (Decidable (_ ∧ _))

/-- A chunk is a slice of the file, and all of it was received. -/
structure IsSlice (content : List UInt8) (received : ℕ → Prop) (c : FileChunk) : Prop where
  inFile : c.offset.toNat + c.bytes.length ≤ content.length
  bytes : c.bytes = contentAt content c.offset.toNat c.bytes.length
  received : ∀ x, c.offset.toNat ≤ x → x < c.offset.toNat + c.bytes.length → received x

/-- An image has received slices of a file. -/
structure ImageOf (content : List UInt8) (received : ℕ → Prop) (image : ElfImage) : Prop where
  fits : content.length ≤ maxFileSize
  length : image.identity.fileLength.toNat = content.length
  chunks : ∀ c ∈ image.chunks, IsSlice content received c

/-- One chunk of an image has all bytes of a range. -/
def ElfImage.Covers (image : ElfImage) (lo hi : ℕ) : Prop := ∃ c ∈ image.chunks, c.Spans lo hi

section Slices

variable {content : List UInt8} {received : ℕ → Prop}

theorem IsSlice.mono {received' : ℕ → Prop} {c : FileChunk} (h : IsSlice content received c)
    (hmono : ∀ x, received x → received' x) : IsSlice content received' c :=
  ⟨h.inFile, h.bytes, fun x hlo hhi => hmono x (h.received x hlo hhi)⟩

theorem ImageOf.mono {received' : ℕ → Prop} {image : ElfImage} (h : ImageOf content received image)
    (hmono : ∀ x, received x → received' x) : ImageOf content received' image :=
  ⟨h.fits, h.length, fun c hc => (h.chunks c hc).mono hmono⟩

theorem maxFileSize_lt : maxFileSize < 2 ^ 64 := by decide

/-- The length of a chunk in a file of bounded size. -/
theorem toNat_length {c : FileChunk} (hfits : content.length ≤ maxFileSize)
    (hc : IsSlice content received c) : c.length.toNat = c.bytes.length := by
  have hlt := maxFileSize_lt
  have hfile := hc.inFile
  exact UInt64.toNat_ofNat_of_lt' (show c.bytes.length < 2 ^ 64 by omega)

/-! ### Reading -/

theorem yields_findChunk {allowed : Failure → Prop} {chunks : List FileChunk}
    (hfits : content.length ≤ maxFileSize)
    (hchunks : ∀ c ∈ chunks, IsSlice content received c) {offset stop : UInt64}
    (hstop : offset.toNat ≤ stop.toNat) :
    Yields allowed (ElfImage.findChunk offset stop chunks) fun read =>
      (∀ bytes, read = some bytes →
        bytes = contentAt content offset.toNat (stop.toNat - offset.toNat) ∧
        ∃ c ∈ chunks, c.Spans offset.toNat stop.toNat) ∧
      (read = none → ∀ c ∈ chunks, ¬ c.Spans offset.toNat stop.toNat) := by
  induction chunks with
  | nil => exact Yields.ok ⟨fun bytes h => absurd h.symm (Option.some_ne_none bytes),
      fun _ c hc => absurd hc List.not_mem_nil⟩
  | cons c chunks ih =>
    have hc := hchunks c List.mem_cons_self
    have hlength := toNat_length hfits hc
    have hlt := maxFileSize_lt
    have hfile := hc.inFile
    have hskip (hspans : ¬ c.Spans offset.toNat stop.toNat) :
        Yields allowed (ElfImage.findChunk offset stop chunks) fun read =>
          (∀ bytes, read = some bytes →
            bytes = contentAt content offset.toNat (stop.toNat - offset.toNat) ∧
            ∃ c' ∈ c :: chunks, c'.Spans offset.toNat stop.toNat) ∧
          (read = none → ∀ c' ∈ c :: chunks, ¬ c'.Spans offset.toNat stop.toNat) := by
      refine (ih fun c' hc' => hchunks c' (List.mem_cons_of_mem _ hc')).mono fun read hread => ?_
      refine ⟨fun bytes hbytes => ?_, fun hnone => ?_⟩
      · obtain ⟨heq, c', hc', hspans'⟩ := hread.1 bytes hbytes
        exact ⟨heq, c', List.mem_cons_of_mem _ hc', hspans'⟩
      · exact List.forall_mem_cons.mpr ⟨hspans, hread.2 hnone⟩
    unfold ElfImage.findChunk
    refine Yields.ite (fun hoffset => ?_) fun hoffset => hskip fun hspans =>
      hoffset (UInt64.le_iff_toNat_le.mpr hspans.1)
    have hoffset := UInt64.le_iff_toNat_le.mp hoffset
    refine (yields_addU64 (by omega)).bind fun chunkStop hchunkStop => ?_
    refine Yields.ite (fun hin => ?_) fun hin => hskip fun hspans =>
      hin (UInt64.le_iff_toNat_le.mpr (by rw [hchunkStop, hlength]; exact hspans.2))
    have hin := UInt64.le_iff_toNat_le.mp hin
    refine (yields_subU64 hoffset).bind fun start hstart => ?_
    refine (yields_subU64 (by omega)).bind fun stop' hstop' => ?_
    refine (yields_sliceBytes (by omega) (by omega)).bind fun bytes hbytes => ?_
    refine Yields.ok ⟨fun bytes' hbytes' => ?_, fun hnone => absurd hnone (Option.some_ne_none _)⟩
    obtain rfl := Option.some_inj.mp hbytes'
    refine ⟨?_, c, List.mem_cons_self, hoffset, by omega⟩
    rw [hbytes, hc.bytes, drop_take_contentAt (by omega)]
    congr 1 <;> omega

/-- Reading gives the bytes of the file, and all of a range that one chunk has. -/
theorem yields_readBytesAt {allowed : Failure → Prop} {image : ElfImage}
    (h : ImageOf content received image) (offset size : UInt64) :
    Yields allowed (image.readBytesAt offset size) fun read =>
      (∀ bytes, read = some bytes → bytes = contentAt content offset.toNat size.toNat ∧
        (size ≠ 0 → image.Covers offset.toNat (offset.toNat + size.toNat))) ∧
      (read = none → size ≠ 0 → ¬ image.Covers offset.toNat (offset.toNat + size.toNat)) := by
  have hlt := maxFileSize_lt
  have hfits := h.fits
  have hcovered (hcovers : image.Covers offset.toNat (offset.toNat + size.toNat)) :
      offset.toNat + size.toNat ≤ content.length := by
    obtain ⟨c, hc, hspans⟩ := hcovers
    exact hspans.2.trans (h.chunks c hc).inFile
  unfold ElfImage.readBytesAt
  refine Yields.ite (fun hbehind => ?_) fun hbehind => ?_
  · refine Yields.pure ⟨fun bytes hbytes => absurd hbytes.symm (Option.some_ne_none bytes), ?_⟩
    intro _ _ hcovers
    have hin := hcovered hcovers
    have hbehind := UInt64.lt_iff_toNat_lt.mp hbehind
    rw [h.length] at hbehind
    omega
  refine Yields.ite (fun hsize => ?_) fun hsize => ?_
  · refine Yields.pure ⟨fun bytes hbytes => ⟨?_, fun hne => absurd hsize hne⟩,
      fun _ hne => absurd hsize hne⟩
    rw [hsize, ← Option.some_inj.mp hbytes]
    exact (List.take_zero (l := content.drop offset.toNat)).symm
  refine Yields.ite (fun hsum => ?_) fun hsum => ?_
  · have hstop : (offset + size).toNat = offset.toNat + size.toNat := by
      rw [UInt64.toNat_add, Nat.mod_eq_of_lt hsum]
    refine (yields_findChunk hfits h.chunks (by omega)).mono fun read hread => ?_
    rw [hstop, Nat.add_sub_cancel_left] at hread
    refine ⟨fun bytes hbytes => ?_, fun hnone _ hcovers => ?_⟩
    · obtain ⟨heq, hspans⟩ := hread.1 bytes hbytes
      exact ⟨heq, fun _ => hspans⟩
    · obtain ⟨c, hc, hspans⟩ := hcovers
      exact hread.2 hnone c hc hspans
  · refine Yields.pure ⟨fun bytes hbytes => absurd hbytes.symm (Option.some_ne_none bytes), ?_⟩
    intro _ _ hcovers
    have hin := hcovered hcovers
    omega

/-- The chunk at an offset is the first one that has the byte there. -/
theorem yields_chunkAt {allowed : Failure → Prop} {chunks : List FileChunk}
    (hfits : content.length ≤ maxFileSize)
    (hchunks : ∀ c ∈ chunks, IsSlice content received c) (offset : UInt64) :
    Yields allowed (ElfImage.chunkAt offset chunks) fun found =>
      found = chunks.find? fun c => c.Spans offset.toNat (offset.toNat + 1) := by
  induction chunks with
  | nil => exact Yields.ok rfl
  | cons c chunks ih =>
    have hc := hchunks c List.mem_cons_self
    have hlength := toNat_length hfits hc
    have hlt := maxFileSize_lt
    have hfile := hc.inFile
    have hskip (hspans : ¬ c.Spans offset.toNat (offset.toNat + 1)) :
        Yields allowed (ElfImage.chunkAt offset chunks) fun found =>
          found = (c :: chunks).find? fun c => c.Spans offset.toNat (offset.toNat + 1) := by
      rw [List.find?_cons_of_neg (by simpa using hspans)]
      exact ih fun c' hc' => hchunks c' (List.mem_cons_of_mem _ hc')
    unfold ElfImage.chunkAt
    refine Yields.ite (fun hoffset => ?_) fun hoffset => hskip fun hspans =>
      hoffset (UInt64.le_iff_toNat_le.mpr hspans.1)
    have hoffset := UInt64.le_iff_toNat_le.mp hoffset
    refine (yields_addU64 (by omega)).bind fun chunkStop hchunkStop => ?_
    rw [hlength] at hchunkStop
    refine Yields.ite (fun hin => Yields.pure ?_) fun hin => hskip fun hspans =>
      hin (UInt64.lt_iff_toNat_lt.mpr (hchunkStop ▸ hspans.2))
    have hin := UInt64.lt_iff_toNat_lt.mp hin
    have hspans : c.Spans offset.toNat (offset.toNat + 1) := ⟨hoffset, hchunkStop ▸ hin⟩
    have hfind : decide (c.Spans offset.toNat (offset.toNat + 1)) = true := decide_eq_true hspans
    rw [List.find?_cons, hfind]

/-- The bytes of a range of a file before the first delimiter. -/
def contentUntil (content : List UInt8) (offset length : ℕ) (delimiter : UInt8) :
    Option (List UInt8) :=
  ((contentAt content offset length).findIdx? (· = delimiter)).map (contentAt content offset)

/-- What is read up to a delimiter. -/
theorem contentUntil_eq_some_iff {offset length : ℕ} {delimiter : UInt8} {bytes : List UInt8}
    (h : offset + length ≤ content.length) :
    contentUntil content offset length delimiter = some bytes ↔
      bytes.length < length ∧ bytes = contentAt content offset bytes.length ∧
        delimiter ∉ bytes ∧ content[offset + bytes.length]? = some delimiter := by
  have hlen := length_contentAt h
  have hget (n : ℕ) (hn : n < (contentAt content offset length).length) :
      content[offset + n]? = some (contentAt content offset length)[n] := by
    rw [← List.getElem?_eq_getElem hn, contentAt, List.getElem?_take_of_lt (by omega),
      List.getElem?_drop]
  have htake (n : ℕ) (hn : n ≤ length) :
      contentAt content offset n = (contentAt content offset length).take n := by
    rw [contentAt, contentAt, List.take_take, Nat.min_eq_left hn]
  rw [contentUntil, Option.map_eq_some_iff]
  constructor
  · rintro ⟨n, hn, rfl⟩
    obtain ⟨hlt, hdelimiter, hbefore⟩ := List.findIdx?_eq_some_iff_getElem.mp hn
    have hbytes : (contentAt content offset n).length = n := length_contentAt (by omega)
    rw [hbytes]
    refine ⟨by omega, rfl, fun hmem => ?_, ?_⟩
    · obtain ⟨j, hj, hfound⟩ := List.getElem_of_mem hmem
      refine hbefore j (by omega) (decide_eq_true ?_)
      rw [← hfound]
      simp only [htake n (by omega), List.getElem_take]
    · rw [hget n hlt, of_decide_eq_true hdelimiter]
  · rintro ⟨hlt, hbytes, hnot, hdelimiter⟩
    refine ⟨bytes.length, List.findIdx?_eq_some_iff_getElem.mpr ⟨by omega, ?_, ?_⟩, hbytes.symm⟩
    · rw [hget _ (by omega)] at hdelimiter
      exact decide_eq_true (Option.some.inj hdelimiter)
    · intro j hj hfound
      refine hnot ?_
      rw [hbytes, htake _ hlt.le, ← of_decide_eq_true hfound]
      exact List.mem_take_iff_getElem.mpr ⟨j, by omega, rfl⟩

/-- Reading up to a delimiter reads from the first chunk that has the first byte. -/
theorem yields_readBytesAtUntil {allowed : Failure → Prop} {image : ElfImage}
    (h : ImageOf content received image) (start stop : UInt64) (delimiter : UInt8) :
    Yields allowed (image.readBytesAtUntil start stop delimiter) fun read =>
      read = if stop < start ∨ image.identity.fileLength < stop then none else
        (image.chunks.find? fun c => c.Spans start.toNat (start.toNat + 1)).bind fun c =>
          contentUntil content start.toNat
            (min stop.toNat (c.offset.toNat + c.bytes.length) - start.toNat) delimiter := by
  unfold ElfImage.readBytesAtUntil
  refine Yields.ite (fun hrange => Yields.pure (if_pos hrange).symm) fun hrange => ?_
  rw [if_neg hrange]
  refine (yields_chunkAt h.fits h.chunks start).bind fun found hfound => ?_
  rw [← hfound]
  cases found with
  | none => exact Yields.pure rfl
  | some c =>
    have hmem := List.mem_of_find?_eq_some hfound.symm
    obtain ⟨hoffset, hin⟩ : c.Spans start.toNat (start.toNat + 1) :=
      of_decide_eq_true (List.find?_some hfound.symm :)
    have hc := h.chunks c hmem
    have hlength := toNat_length h.fits hc
    have hlt := maxFileSize_lt
    have hfits := h.fits
    have hfile := hc.inFile
    have hle : start.toNat ≤ stop.toNat := by
      refine Nat.not_lt.mp fun hlt => hrange (.inl (UInt64.lt_iff_toNat_lt.mpr hlt))
    refine (yields_addU64 (by omega)).bind fun chunkStop hchunkStop => ?_
    have hmin : (min stop chunkStop).toNat =
        min stop.toNat (c.offset.toNat + c.bytes.length) := by
      rw [← hlength, ← hchunkStop, UInt64.min_def, Nat.min_def]
      split
      · next hle => rw [if_pos (UInt64.le_iff_toNat_le.mp hle)]
      · next hle => rw [if_neg fun h => hle (UInt64.le_iff_toNat_le.mpr h)]
    refine (yields_subU64 hoffset).bind fun first hfirst => ?_
    refine (yields_subU64 (by omega)).bind fun last hlast => ?_
    rw [hmin] at hlast
    have hwithin : first ≤ last := UInt64.le_iff_toNat_le.mpr (by omega)
    refine Yields.ite (fun _ => ?_) fun hnot => absurd ⟨hwithin, by omega⟩ hnot
    have hcount : (last - first).toNat =
        min stop.toNat (c.offset.toNat + c.bytes.length) - start.toNat := by
      rw [UInt64.toNat_sub_of_le _ _ hwithin]
      omega
    have hstart : c.offset.toNat + (start.toNat - c.offset.toNat) = start.toNat := by omega
    have hpart (k : ℕ) (hk : start.toNat - c.offset.toNat + k ≤ c.bytes.length) :
        (c.bytes.drop (start.toNat - c.offset.toNat)).take k = contentAt content start.toNat k := by
      rw [hc.bytes, drop_take_contentAt hk, hstart]
    dsimp only
    rw [hcount, hfirst, hpart _ (by omega), Option.bind_some, contentUntil]
    have hlen : (contentAt content start.toNat
        (min stop.toNat (c.offset.toNat + c.bytes.length) - start.toNat)).length =
          min stop.toNat (c.offset.toNat + c.bytes.length) - start.toNat :=
      length_contentAt (by omega)
    cases hfind : (contentAt content start.toNat
        (min stop.toNat (c.offset.toNat + c.bytes.length) - start.toNat)).findIdx?
          (· = delimiter) with
    | none => exact Yields.pure rfl
    | some length =>
      obtain ⟨hlt, -⟩ := List.findIdx?_eq_some_iff_getElem.mp hfind
      refine (yields_sliceBytes (Nat.zero_le _) hlt.le).bind fun bytes hbytes => Yields.pure ?_
      rw [hbytes, drop_take_contentAt (by omega), Nat.add_zero, Nat.sub_zero]
      rfl

/-- What is found before a delimiter are bytes of the file in one chunk that has the delimiter, too. -/
theorem ImageOf.exists_of_readUntil {image : ElfImage} (h : ImageOf content received image)
    {start stop : UInt64} {delimiter : UInt8} {bytes : List UInt8}
    (hread : ((image.chunks.find? fun c => c.Spans start.toNat (start.toNat + 1)).bind fun c =>
      contentUntil content start.toNat
        (min stop.toNat (c.offset.toNat + c.bytes.length) - start.toNat) delimiter) = some bytes) :
    image.Covers start.toNat (start.toNat + bytes.length + 1) ∧
      start.toNat + bytes.length < stop.toNat ∧
      bytes = contentAt content start.toNat bytes.length ∧ delimiter ∉ bytes ∧
      content[start.toNat + bytes.length]? = some delimiter := by
  obtain ⟨c, hfound, huntil⟩ := Option.bind_eq_some_iff.mp hread
  have hmem := List.mem_of_find?_eq_some hfound
  obtain ⟨hoffset, hin⟩ : c.Spans start.toNat (start.toNat + 1) :=
    of_decide_eq_true (List.find?_some hfound :)
  have hfile := (h.chunks c hmem).inFile
  by_cases hempty : stop.toNat ≤ start.toNat
  · rw [Nat.min_eq_left (by omega), Nat.sub_eq_zero_of_le hempty] at huntil
    cases huntil
  · obtain ⟨hlt, hbytes, hnot, hdelimiter⟩ := (contentUntil_eq_some_iff (by omega)).mp huntil
    exact ⟨⟨c, hmem, hoffset, by omega⟩, by omega, hbytes, hnot, hdelimiter⟩

/-- The bytes of a range that one chunk has, or of an empty range. -/
theorem yields_bytes {image : ElfImage} (h : ImageOf content received image)
    {offset length : UInt64}
    (hcovers : length ≠ 0 → image.Covers offset.toNat (offset.toNat + length.toNat)) :
    Yields Failure.Harmless (image.bytes offset length) fun bytes =>
      bytes = contentAt content offset.toNat length.toNat := by
  refine (yields_readBytesAt h offset length).bind fun read hread => ?_
  cases read with
  | none =>
    refine Yields.error ⟨id, fun o l heq => ?_⟩
    obtain ⟨-, rfl⟩ := Failure.missing.inj heq
    by_contra hne
    exact hread.2 rfl hne (hcovers hne)
  | some bytes => exact Yields.ok (hread.1 bytes rfl).1

/-- The number at an offset of a file. -/
def numberAt (content : List UInt8) (offset length : ℕ) : UInt64 :=
  .ofNat (leValue (contentAt content offset length))

/-- A number of some bytes is less than what they can hold. -/
theorem toNat_numberAt_lt (content : List UInt8) (offset length : ℕ) :
    (numberAt content offset length).toNat < 256 ^ length := by
  have hlt := leValue_lt (contentAt content offset length)
  have hle : (contentAt content offset length).length ≤ length := List.length_take_le _ _
  have hpow : 256 ^ (contentAt content offset length).length ≤ 256 ^ length :=
    Nat.pow_le_pow_right (by decide) hle
  have hmod : (numberAt content offset length).toNat ≤ leValue (contentAt content offset length) :=
    UInt64.toNat_ofNat'.trans_le (Nat.mod_le _ _)
  omega

theorem yields_number {image : ElfImage} (h : ImageOf content received image)
    {offset length : UInt64} (hlength : length = 2 ∨ length = 4 ∨ length = 8)
    (hcovers : image.Covers offset.toNat (offset.toNat + length.toNat)) :
    Yields Failure.Harmless (image.number offset length) fun number =>
      number = numberAt content offset.toNat length.toNat := by
  refine (yields_bytes h fun _ => hcovers).bind fun bytes hbytes => ?_
  refine Yields.ite (fun _ => ?_) fun hother => absurd hlength hother
  refine (yields_ensure _ _).bind fun _ _ => Yields.pure ?_
  rw [hbytes]
  rfl

/-! ### Adding chunks -/

/-- Sorting by offsets sorts by offsets. -/
theorem pairwise_mergeSort_offset {α : Type} (offset : α → UInt64) (l : List α) :
    (l.mergeSort fun a b => decide (offset a ≤ offset b)).Pairwise
      fun a b => (offset a).toNat ≤ (offset b).toNat := by
  refine (List.pairwise_mergeSort (fun a b c hab hbc => ?_) (fun a b => ?_) l).imp fun hab => ?_
  · exact decide_eq_true (UInt64.le_trans (of_decide_eq_true hab) (of_decide_eq_true hbc))
  · rw [Bool.or_eq_true, decide_eq_true_eq, decide_eq_true_eq]
    exact UInt64.le_total _ _
  · exact UInt64.le_iff_toNat_le.mp (of_decide_eq_true hab)

/-- What the loop over the sorted chunks keeps: the merged chunks are slices, they have what the
chunks so far have, the last begins where one of these begins, and they do not overlap. -/
structure MergesChunks (content : List UInt8) (received : ℕ → Prop)
    (before merged : List FileChunk) : Prop where
  slices : ∀ c ∈ merged, IsSlice content received c
  spans : ∀ lo hi, (∃ c ∈ before, c.Spans lo hi) → ∃ c ∈ merged, c.Spans lo hi
  start : ∀ last ∈ merged.head?, ∃ c ∈ before, c.offset = last.offset
  total : ∀ last ∈ merged.head?, (merged.map fun c => c.bytes.length).sum ≤
    last.offset.toNat + last.bytes.length

/-- A chunk that begins in the last merged one or right behind it extends it. -/
theorem IsSlice.append {last c : FileChunk} (hlast : IsSlice content received last)
    (hc : IsSlice content received c)
    (hnext : c.offset.toNat ≤ last.offset.toNat + last.bytes.length) :
    IsSlice content received ⟨last.offset, last.bytes ++
      c.bytes.drop (last.offset.toNat + last.bytes.length - c.offset.toNat)⟩ := by
  have hoverlap : c.offset.toNat + (last.offset.toNat + last.bytes.length - c.offset.toNat) =
      last.offset.toNat + last.bytes.length := by omega
  have hfile := hc.inFile
  have hfile' := hlast.inFile
  constructor
  · dsimp only
    rw [List.length_append, List.length_drop]
    omega
  · dsimp only
    rw [List.length_append, List.length_drop, ← contentAt_append, ← hlast.bytes]
    refine congrArg (last.bytes ++ ·) ?_
    conv_lhs => rw [hc.bytes]
    rw [drop_contentAt, hoverlap]
  · intro x hlo hhi
    dsimp only at hlo hhi
    rw [List.length_append, List.length_drop] at hhi
    by_cases hx : x < last.offset.toNat + last.bytes.length
    · exact hlast.received x hlo hx
    · exact hc.received x (by omega) (by omega)

/-- What adding a chunk to the merged ones does: the chunk begins a new one behind a gap, or extends the
last one by what that does not have. -/
def MergesInto (merged : List FileChunk) (chunk : FileChunk) (merged' : List FileChunk) : Prop :=
  (merged' = chunk :: merged ∧
    ∀ last ∈ merged.head?, last.offset.toNat + last.bytes.length < chunk.offset.toNat) ∨
  ∃ last rest, merged = last :: rest ∧
    chunk.offset.toNat ≤ last.offset.toNat + last.bytes.length ∧
    merged' = ⟨last.offset, last.bytes ++
      chunk.bytes.drop (last.offset.toNat + last.bytes.length - chunk.offset.toNat)⟩ :: rest

/-- One round of the loop. -/
theorem yields_mergeChunk {fileLength : UInt64} {merged : List FileChunk} {chunk : FileChunk}
    (hchunk : chunk.bytes.length < 2 ^ 64)
    (hmerged : ∀ last ∈ merged.head?, last.offset.toNat + last.bytes.length < 2 ^ 64) :
    Yields Failure.Harmless (ElfImage.mergeChunk fileLength merged chunk) fun merged' =>
      chunk.offset.toNat + chunk.bytes.length ≤ fileLength.toNat ∧
        MergesInto merged chunk merged' := by
  have hlength : chunk.length.toNat = chunk.bytes.length := UInt64.toNat_ofNat_of_lt' hchunk
  unfold ElfImage.mergeChunk
  refine (yields_checkedAdd _ _ _).bind fun stop hstop => ?_
  refine (yields_ensure _ _).bind fun _ hin => ?_
  have hin := UInt64.le_iff_toNat_le.mp hin
  rw [hstop, hlength] at hin
  cases merged with
  | nil => exact Yields.pure ⟨hin, .inl ⟨rfl, fun last hlast => by cases hlast⟩⟩
  | cons last rest =>
    have hlast := hmerged last rfl
    have hlastLength : last.length.toNat = last.bytes.length :=
      UInt64.toNat_ofNat_of_lt' (show last.bytes.length < 2 ^ 64 by omega)
    refine (yields_addU64 (by omega)).bind fun lastStop hlastStop => ?_
    rw [hlastLength] at hlastStop
    refine Yields.ite (fun hnext => ?_) fun hgap => ?_
    · have hnext := UInt64.le_iff_toNat_le.mp hnext
      refine (yields_subU64 hnext).bind fun overlap hoverlap => ?_
      rw [hlastStop] at hnext hoverlap
      refine Yields.ite (fun hlonger => ?_) fun hwithin => ?_
      · refine (yields_sliceBytes (by omega) le_rfl).bind fun bytes hbytes => Yields.pure ?_
        refine ⟨hin, .inr ⟨last, rest, rfl, hnext, ?_⟩⟩
        rw [hbytes, hoverlap, List.take_of_length_le (by rw [List.length_drop])]
      · refine Yields.pure ⟨hin, .inr ⟨last, rest, rfl, hnext, ?_⟩⟩
        rw [List.drop_eq_nil_of_le (by omega), List.append_nil]
    · refine Yields.pure ⟨hin, .inl ⟨rfl, fun head hhead => ?_⟩⟩
      obtain rfl := Option.some_inj.mp hhead
      rw [← hlastStop]
      exact Nat.not_le.mp fun hle => hgap (UInt64.le_iff_toNat_le.mpr hle)

/-- The loop keeps what the merged chunks are. -/
theorem MergesChunks.merge {before merged merged' : List FileChunk} {chunk : FileChunk}
    (hmerged : MergesChunks content received before merged)
    (hchunk : IsSlice content received chunk)
    (hsorted : ∀ c ∈ before, c.offset.toNat ≤ chunk.offset.toNat)
    (hinto : MergesInto merged chunk merged') :
    MergesChunks content received (before ++ [chunk]) merged' := by
  obtain ⟨rfl, hgap⟩ | ⟨last, rest, rfl, hnext, rfl⟩ := hinto
  · refine ⟨List.forall_mem_cons.mpr ⟨hchunk, hmerged.slices⟩, ?_, ?_, ?_⟩
    · rintro lo hi ⟨c, hc, hspans⟩
      rcases List.mem_append.mp hc with hc | hc
      · obtain ⟨c', hc', hspans'⟩ := hmerged.spans lo hi ⟨c, hc, hspans⟩
        exact ⟨c', List.mem_cons_of_mem _ hc', hspans'⟩
      · obtain rfl := List.mem_singleton.mp hc
        exact ⟨c, List.mem_cons_self, hspans⟩
    · rintro head hhead
      obtain rfl := Option.some_inj.mp hhead
      exact ⟨chunk, List.mem_append_right _ (List.mem_singleton_self _), rfl⟩
    · rintro head hhead
      obtain rfl := Option.some_inj.mp hhead
      cases merged with
      | nil => exact Nat.le_add_left _ _
      | cons last rest =>
        have htotal := hmerged.total last rfl
        have hbehind := hgap last rfl
        rw [List.map_cons, List.sum_cons]
        omega
  · obtain ⟨hslice, hrest⟩ := List.forall_mem_cons.mp hmerged.slices
    obtain ⟨first, hfirst, hstart⟩ := hmerged.start last rfl
    have htotal := hmerged.total last rfl
    have hle : last.offset.toNat ≤ chunk.offset.toNat := hstart ▸ hsorted first hfirst
    refine ⟨List.forall_mem_cons.mpr ⟨hslice.append hchunk hnext, hrest⟩, ?_, ?_, ?_⟩
    · rintro lo hi ⟨c, hc, hspans⟩
      rcases List.mem_append.mp hc with hc | hc
      · obtain ⟨c', hc', hspans'⟩ := hmerged.spans lo hi ⟨c, hc, hspans⟩
        rcases List.mem_cons.mp hc' with rfl | hc'
        · refine ⟨_, List.mem_cons_self, hspans'.1, hspans'.2.trans ?_⟩
          dsimp only
          rw [List.length_append]
          omega
        · exact ⟨c', List.mem_cons_of_mem _ hc', hspans'⟩
      · obtain rfl := List.mem_singleton.mp hc
        refine ⟨_, List.mem_cons_self, hle.trans hspans.1, hspans.2.trans ?_⟩
        dsimp only
        rw [List.length_append, List.length_drop]
        omega
    · rintro head hhead
      obtain rfl := Option.some_inj.mp hhead
      exact ⟨first, List.mem_append_left _ hfirst, hstart⟩
    · rintro head hhead
      obtain rfl := Option.some_inj.mp hhead
      rw [List.map_cons, List.sum_cons] at htotal ⊢
      dsimp only
      rw [List.length_append]
      omega

/-- A chunk begins behind the end of another, with a gap. -/
def Ipc.FileChunk.Behind (c before : FileChunk) : Prop :=
  before.offset.toNat + before.bytes.length < c.offset.toNat

/-- The loop keeps gaps between the merged chunks. -/
theorem MergesInto.pairwise_behind {merged merged' : List FileChunk} {chunk : FileChunk}
    (h : merged.Pairwise FileChunk.Behind) (hinto : MergesInto merged chunk merged') :
    merged'.Pairwise FileChunk.Behind := by
  obtain ⟨rfl, hgap⟩ | ⟨last, rest, rfl, -, rfl⟩ := hinto
  · refine List.pairwise_cons.mpr ⟨fun c hc => ?_, h⟩
    cases merged with
    | nil => cases hc
    | cons last rest =>
      have hbehind := hgap last rfl
      rcases List.mem_cons.mp hc with rfl | hc
      · exact hbehind
      · have hgap' : c.offset.toNat + c.bytes.length < last.offset.toNat :=
          (List.pairwise_cons.mp h).1 c hc
        exact hgap'.trans_le (by omega)
  · obtain ⟨hlast, hrest⟩ := List.pairwise_cons.mp h
    exact List.pairwise_cons.mpr ⟨hlast, hrest⟩

/-- Adding what was served keeps an image of the file and what it could read, and all of the chunks
that were served can be read; the chunks are sorted and have gaps between them. -/
theorem yields_extend {image : ElfImage} (h : ImageOf content received image)
    {data : MappedFileData} (hdata : ∀ c ∈ data.chunks, IsSlice content received c) :
    Yields Failure.Harmless (image.extend data) fun image' =>
      ImageOf content received image' ∧
        (∀ lo hi, image.Covers lo hi → image'.Covers lo hi) ∧
        (∀ c ∈ data.chunks, ∀ lo hi, c.Spans lo hi → image'.Covers lo hi) ∧
        image'.chunks.Pairwise fun before c => c.Behind before := by
  have hfits := h.fits
  have hlt := maxFileSize_lt
  have hall : ∀ c ∈ (image.chunks ++ data.chunks).mergeSort
      (fun a b => decide (a.offset ≤ b.offset)), IsSlice content received c := by
    intro c hc
    rcases List.mem_append.mp (List.mem_mergeSort.mp hc) with hc | hc
    · exact h.chunks c hc
    · exact hdata c hc
  have hsorted := pairwise_mergeSort_offset FileChunk.offset (image.chunks ++ data.chunks)
  have hmem : ∀ c, c ∈ (image.chunks ++ data.chunks).mergeSort
      (fun a b => decide (a.offset ≤ b.offset)) ↔ c ∈ image.chunks ++ data.chunks :=
    fun c => List.mem_mergeSort
  unfold ElfImage.extend
  refine (yields_ensure _ _).bind fun _ _ => ?_
  dsimp only
  generalize (image.chunks ++ data.chunks).mergeSort _ = chunks at hall hsorted hmem ⊢
  have hloop : Yields Failure.Harmless
      (chunks.foldlM (ElfImage.mergeChunk image.identity.fileLength) []) fun merged =>
        MergesChunks content received chunks merged ∧ merged.Pairwise FileChunk.Behind := by
    refine Yields.foldlM (fun before merged => MergesChunks content received before merged ∧
      merged.Pairwise FileChunk.Behind) chunks ⟨⟨?_, ?_, ?_, ?_⟩, List.Pairwise.nil⟩ ?_
    · exact fun c hc => absurd hc List.not_mem_nil
    · rintro lo hi ⟨c, hc, -⟩
      exact absurd hc List.not_mem_nil
    · exact fun last hlast => absurd hlast.symm (Option.some_ne_none last)
    · exact fun last hlast => absurd hlast.symm (Option.some_ne_none last)
    · intro before chunk after merged hchunks hmerged
      rw [hchunks] at hall hsorted
      have hchunk := hall chunk (List.mem_append_right _ List.mem_cons_self)
      have hfile := hchunk.inFile
      have hlast (last : FileChunk) (hlast : last ∈ merged.head?) :
          last.offset.toNat + last.bytes.length < 2 ^ 64 := by
        have hlastFile := (hmerged.1.slices last (List.mem_of_mem_head? hlast)).inFile
        omega
      refine (yields_mergeChunk (by omega) hlast).mono fun merged' hmerged' => ?_
      refine ⟨hmerged.1.merge hchunk (fun c hc => ?_) hmerged'.2,
        hmerged'.2.pairwise_behind hmerged.2⟩
      exact (List.pairwise_append.mp hsorted).2.2 c hc chunk List.mem_cons_self
  refine hloop.bind fun merged ⟨hmerged, hbehind⟩ => ?_
  have hlengths : (merged.map FileChunk.length).map UInt64.toNat =
      merged.map fun c => c.bytes.length := by
    rw [List.map_map]
    exact List.map_congr_left fun c hc => toNat_length hfits (hmerged.slices c hc)
  have htotal : ((merged.map FileChunk.length).map UInt64.toNat).sum < 2 ^ 64 := by
    rw [hlengths]
    cases merged with
    | nil => decide
    | cons last rest =>
      have hsum := hmerged.total last rfl
      have hfile := (hmerged.slices last List.mem_cons_self).inFile
      omega
  refine (yields_sumU64 htotal).bind fun total _ => ?_
  refine (yields_ensure _ _).bind fun _ _ => Yields.pure
    ⟨⟨hfits, h.length, ?_⟩, ?_, ?_, List.pairwise_reverse.mpr hbehind⟩
  · exact fun c hc => hmerged.slices c (List.mem_reverse.mp hc)
  · rintro lo hi ⟨c, hc, hspans⟩
    obtain ⟨c', hc', hspans'⟩ := hmerged.spans lo hi
      ⟨c, (hmem c).mpr (List.mem_append_left _ hc), hspans⟩
    exact ⟨c', List.mem_reverse.mpr hc', hspans'⟩
  · intro c hc lo hi hspans
    obtain ⟨c', hc', hspans'⟩ := hmerged.spans lo hi
      ⟨c, (hmem c).mpr (List.mem_append_right _ hc), hspans⟩
    exact ⟨c', List.mem_reverse.mpr hc', hspans'⟩

end Slices

end Procinsh
