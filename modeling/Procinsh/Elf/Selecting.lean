import Procinsh.Elf.Reading

/-!
# Selecting the ranges to ask for

Each stage selects ranges that are in the file and not too long together.  What it needs can be read
already or is in one of the ranges that it selects, so that the stage behind it has what it parses:
behind the tables come the names of the sections, behind these the sections.
-/

namespace Procinsh

open Ipc

variable {content : List UInt8} {received : ℕ → Prop}

/-! ## Ranges -/

/-- A range has all of another. -/
def FileRange.Spans (r : FileRange) (lo hi : ℕ) : Prop :=
  r.offset.toNat ≤ lo ∧ hi ≤ r.offset.toNat + r.length.toNat

/-- The ranges are in the file, and not too long together. -/
structure Selected (content : List UInt8) (ranges : List FileRange) : Prop where
  inFile : ∀ r ∈ ranges, r.offset.toNat + r.length.toNat ≤ content.length
  total : (ranges.map fun r => r.length.toNat).sum ≤ maxReadSize

/-- The bytes can be read, or are asked for with one range. -/
def Provided (image : ElfImage) (ranges : List FileRange) (lo hi : ℕ) : Prop :=
  image.Covers lo hi ∨ ∃ r ∈ ranges, r.Spans lo hi

/-- What the loop over the sorted ranges keeps: the merged ranges are in the file, they have what
the ranges so far have, the last begins where one of these begins, and they do not overlap. -/
structure MergesRanges (content : List UInt8) (before merged : List FileRange) : Prop where
  inFile : ∀ r ∈ merged, r.offset.toNat + r.length.toNat ≤ content.length
  spans : ∀ lo hi, (∃ r ∈ before, r.Spans lo hi) → ∃ r ∈ merged, r.Spans lo hi
  start : ∀ last ∈ merged.head?, ∃ r ∈ before, r.offset = last.offset
  total : ∀ last ∈ merged.head?, (merged.map fun r => r.length.toNat).sum ≤
    last.offset.toNat + last.length.toNat

theorem yields_mergeRange {fileLength : UInt64} (hlength : fileLength.toNat = content.length)
    {before merged : List FileRange} {range : FileRange}
    (hmerged : MergesRanges content before merged)
    (hsorted : ∀ r ∈ before, r.offset.toNat ≤ range.offset.toNat) :
    Yields Failure.Harmless (ElfImage.mergeRange fileLength merged range)
      (MergesRanges content (before ++ [range])) := by
  unfold ElfImage.mergeRange
  refine (yields_checkedAdd _ _ _).bind fun stop hstop => ?_
  refine (yields_ensure _ _).bind fun _ hin => ?_
  have hin := UInt64.le_iff_toNat_le.mp hin
  have hlt := fileLength.toNat_lt
  rw [hstop, hlength] at hin
  cases merged with
  | nil =>
    refine Yields.pure ⟨List.forall_mem_singleton.mpr hin, ?_, ?_, ?_⟩
    · rintro lo hi ⟨r, hr, hspans⟩
      rcases List.mem_append.mp hr with hr | hr
      · obtain ⟨r', hr', -⟩ := hmerged.spans lo hi ⟨r, hr, hspans⟩
        exact absurd hr' List.not_mem_nil
      · exact ⟨r, hr, hspans⟩
    · rintro last hlast
      obtain rfl := Option.some_inj.mp hlast
      exact ⟨range, List.mem_append_right _ (List.mem_singleton_self _), rfl⟩
    · rintro last hlast
      obtain rfl := Option.some_inj.mp hlast
      exact Nat.le_add_left _ _
  | cons last rest =>
    obtain ⟨hlast, hrest⟩ := List.forall_mem_cons.mp hmerged.inFile
    obtain ⟨first, hfirst, hstart⟩ := hmerged.start last rfl
    have htotal := hmerged.total last rfl
    have hle : last.offset.toNat ≤ range.offset.toNat := hstart ▸ hsorted first hfirst
    refine (yields_addU64 (by omega)).bind fun lastStop hlastStop => ?_
    refine Yields.ite (fun hnext => ?_) fun hgap => ?_
    · have hnext := UInt64.le_iff_toNat_le.mp hnext
      refine (yields_subU64 (by omega)).bind fun length hlen => Yields.pure ?_
      have hmax : (max last.length length).toNat = max last.length.toNat length.toNat := by
        rw [UInt64.max_def, Nat.max_def]
        split
        · next hle => rw [if_pos (UInt64.le_iff_toNat_le.mp hle)]
        · next hle => rw [if_neg fun h => hle (UInt64.le_iff_toNat_le.mpr h)]
      refine ⟨List.forall_mem_cons.mpr ⟨?_, hrest⟩, ?_, ?_, ?_⟩
      · dsimp only
        omega
      · rintro lo hi ⟨r, hr, hspans⟩
        rcases List.mem_append.mp hr with hr | hr
        · obtain ⟨r', hr', hspans'⟩ := hmerged.spans lo hi ⟨r, hr, hspans⟩
          rcases List.mem_cons.mp hr' with rfl | hr'
          · obtain ⟨hlo, hhi⟩ := hspans'
            exact ⟨_, List.mem_cons_self, hlo, by dsimp only; omega⟩
          · exact ⟨r', List.mem_cons_of_mem _ hr', hspans'⟩
        · obtain rfl := List.mem_singleton.mp hr
          obtain ⟨hlo, hhi⟩ := hspans
          exact ⟨_, List.mem_cons_self, hle.trans hlo, by dsimp only; omega⟩
      · rintro head hhead
        obtain rfl := Option.some_inj.mp hhead
        exact ⟨first, List.mem_append_left _ hfirst, hstart⟩
      · rintro head hhead
        obtain rfl := Option.some_inj.mp hhead
        rw [List.map_cons, List.sum_cons] at htotal ⊢
        dsimp only
        omega
    · have hgap : last.offset.toNat + last.length.toNat < range.offset.toNat := by
        rw [← hlastStop]
        exact Nat.not_le.mp fun hle => hgap (UInt64.le_iff_toNat_le.mpr hle)
      refine Yields.pure ⟨List.forall_mem_cons.mpr ⟨hin, hmerged.inFile⟩, ?_, ?_, ?_⟩
      · rintro lo hi ⟨r, hr, hspans⟩
        rcases List.mem_append.mp hr with hr | hr
        · obtain ⟨r', hr', hspans'⟩ := hmerged.spans lo hi ⟨r, hr, hspans⟩
          exact ⟨r', List.mem_cons_of_mem _ hr', hspans'⟩
        · obtain rfl := List.mem_singleton.mp hr
          exact ⟨r, List.mem_cons_self, hspans⟩
      · rintro head hhead
        obtain rfl := Option.some_inj.mp hhead
        exact ⟨range, List.mem_append_right _ (List.mem_singleton_self _), rfl⟩
      · rintro head hhead
        obtain rfl := Option.some_inj.mp hhead
        rw [List.map_cons, List.sum_cons]
        omega

/-- The ranges that are selected provide the ranges that are needed. -/
theorem yields_ranges {image : ElfImage} (h : ImageOf content received image)
    (needed : List FileRange) :
    Yields Failure.Harmless (image.ranges needed) fun out => Selected content out ∧
      ∀ r ∈ needed, r.length ≠ 0 →
        Provided image out r.offset.toNat (r.offset.toNat + r.length.toNat) := by
  unfold ElfImage.ranges
  have hretain : Yields Failure.Harmless (needed.foldlM image.retainMissing []) fun kept =>
      ∀ r ∈ needed, r.length ≠ 0 →
        image.Covers r.offset.toNat (r.offset.toNat + r.length.toNat) ∨ r ∈ kept := by
    refine Yields.foldlM (fun before (kept : List FileRange) => ∀ r ∈ before, r.length ≠ 0 →
      image.Covers r.offset.toNat (r.offset.toNat + r.length.toNat) ∨ r ∈ kept) needed
      (fun r hr => absurd hr List.not_mem_nil) ?_
    intro before range after kept _ hkept
    refine Yields.ite (fun hzero => Yields.pure fun r hr hne => ?_) fun hne => ?_
    · rcases List.mem_append.mp hr with hr | hr
      · exact hkept r hr hne
      · exact absurd (List.mem_singleton.mp hr ▸ hzero) hne
    · refine (yields_readBytesAt h range.offset range.length).bind fun read hread => Yields.pure ?_
      intro r hr hr0
      rcases List.mem_append.mp hr with hr | hr
      · refine (hkept r hr hr0).imp_right fun hmem => ?_
        split
        · exact List.mem_append_left _ hmem
        · exact hmem
      · obtain rfl := List.mem_singleton.mp hr
        cases read with
        | none => exact .inr (List.mem_append_right _ (List.mem_singleton_self r))
        | some bytes => exact .inl ((hread.1 bytes rfl).2 hne)
  refine hretain.bind fun kept hkept => ?_
  dsimp only
  have hsorted := pairwise_mergeSort_offset FileRange.offset kept
  have hmem : ∀ r, r ∈ kept.mergeSort (fun a b => decide (a.offset ≤ b.offset)) ↔ r ∈ kept :=
    fun r => List.mem_mergeSort
  generalize kept.mergeSort _ = sorted at hsorted hmem ⊢
  have hloop : Yields Failure.Harmless
      (sorted.foldlM (ElfImage.mergeRange image.identity.fileLength) [])
      (MergesRanges content sorted) := by
    refine Yields.foldlM (MergesRanges content) sorted ⟨?_, ?_, ?_, ?_⟩ ?_
    · exact fun r hr => absurd hr List.not_mem_nil
    · rintro lo hi ⟨r, hr, -⟩
      exact absurd hr List.not_mem_nil
    · exact fun last hlast => absurd hlast.symm (Option.some_ne_none last)
    · exact fun last hlast => absurd hlast.symm (Option.some_ne_none last)
    · intro before range after merged hranges hmerged
      rw [hranges] at hsorted
      refine yields_mergeRange h.length hmerged fun r hr => ?_
      exact (List.pairwise_append.mp hsorted).2.2 r hr range List.mem_cons_self
  refine hloop.bind fun merged hmerged => ?_
  have hlengths : (merged.map FileRange.length).map UInt64.toNat =
      merged.map fun r => r.length.toNat := List.map_map
  have htotal : ((merged.map FileRange.length).map UInt64.toNat).sum < 2 ^ 64 := by
    rw [hlengths]
    cases merged with
    | nil => decide
    | cons last rest =>
      have hsum := hmerged.total last rfl
      have hfile := hmerged.inFile last List.mem_cons_self
      have hlt := maxFileSize_lt
      have hfits := h.fits
      omega
  refine (yields_sumU64 htotal).bind fun total htotal => ?_
  refine (yields_ensure _ _).bind fun _ hmax => Yields.pure ⟨⟨?_, ?_⟩, ?_⟩
  · exact fun r hr => hmerged.inFile r (List.mem_reverse.mp hr)
  · rw [List.map_reverse, List.sum_reverse, ← hlengths, ← htotal]
    exact hmax
  · intro r hr hne
    refine (hkept r hr hne).imp_right fun hkept => ?_
    obtain ⟨r', hr', hspans⟩ := hmerged.spans _ _ ⟨r, (hmem r).mpr hkept, le_rfl, le_rfl⟩
    exact ⟨r', List.mem_reverse.mpr hr', hspans⟩

/-! ## The header and the section table -/

theorem ElfImage.Covers.of_le {image : ElfImage} {lo hi lo' hi' : ℕ} (h : image.Covers lo hi)
    (hlo : lo ≤ lo') (hhi : hi' ≤ hi) : image.Covers lo' hi' := by
  obtain ⟨c, hc, hstart, hstop⟩ := h
  exact ⟨c, hc, hstart.trans hlo, hhi.trans hstop⟩

theorem ElfImage.Covers.le_length {image : ElfImage} (h : ImageOf content received image)
    {lo hi : ℕ} (hcovers : image.Covers lo hi) : hi ≤ content.length := by
  obtain ⟨c, hc, -, hstop⟩ := hcovers
  exact hstop.trans (h.chunks c hc).inFile

/-- The file has the header of a class. -/
def HeaderOf (content : List UInt8) (wide : Bool) : Prop :=
  (contentAt content 0 16)[4]? = some (if wide then 2 else 1)

theorem HeaderOf.unique {wide wide' : Bool} (h : HeaderOf content wide)
    (h' : HeaderOf content wide') : wide = wide' := by
  have hbyte := Option.some_inj.mp (h.symm.trans h')
  cases wide <;> cases wide' <;> first | rfl | exact absurd hbyte (by decide)

/-- The number in a field of an entry, whose place may depend on the class. -/
def fieldAt (content : List UInt8) (entry : ℕ) (offset length : UInt64) : UInt64 :=
  numberAt content (entry + offset.toNat) length.toNat

/-- What the header of a file says about its section table. -/
structure TableOf (content : List UInt8) (wide : Bool)
    (table : UInt64 × UInt64 × UInt64 × UInt64) : Prop where
  header : HeaderOf content wide
  fields : table = (fieldAt content 0 (if wide then 40 else 32) (if wide then 8 else 4),
    fieldAt content 0 (if wide then 58 else 46) 2, fieldAt content 0 (if wide then 60 else 48) 2,
    fieldAt content 0 (if wide then 62 else 50) 2)
  count_le : table.2.2.1.toNat ≤ 4096
  size : table.2.1.toNat = if wide then 64 else 40
  names_lt : table.2.2.2.toNat < table.2.2.1.toNat

theorem TableOf.unique {wide wide' : Bool} {table table' : UInt64 × UInt64 × UInt64 × UInt64}
    (h : TableOf content wide table) (h' : TableOf content wide' table') :
    wide = wide' ∧ table = table' := by
  have hwide := h.header.unique h'.header
  refine ⟨hwide, ?_⟩
  rw [h.fields, h'.fields, hwide]

section Header

variable {image : ElfImage} (h : ImageOf content received image) (hheader : image.Covers 0 64)

include h hheader

theorem yields_is64 : Yields Failure.Harmless image.is64 (HeaderOf content) := by
  have hlength : 16 ≤ content.length := (hheader.of_le le_rfl (by decide)).le_length h
  unfold ElfImage.is64
  refine (yields_bytes h fun _ => hheader.of_le le_rfl (by decide)).bind fun ident hident => ?_
  have hident : ident = contentAt content 0 16 := hident
  have hlen : ident.length = 16 := by rw [hident, length_contentAt (by omega)]
  refine (yields_sliceBytes (by decide) (by omega)).bind fun magic _ => ?_
  refine (yields_ensure _ _).bind fun _ _ => ?_
  refine (yields_indexBytes (by omega)).bind fun data _ => ?_
  refine (yields_ensure _ _).bind fun _ _ => ?_
  refine (yields_indexBytes (by omega)).bind fun version _ => ?_
  refine (yields_ensure _ _).bind fun _ _ => ?_
  refine (yields_indexBytes (by omega)).bind fun cls hcls => ?_
  rw [hident] at hcls
  refine Yields.ite (fun hone => Yields.pure ?_) fun _ => ?_
  · rw [HeaderOf, hcls, hone]
    rfl
  · refine Yields.ite (fun htwo => Yields.pure ?_) fun _ =>
      Yields.error (Failure.harmless_error _)
    rw [HeaderOf, hcls, htwo]
    rfl

/-- A field of the header, at its place in each class. -/
theorem yields_headerField (wide : Bool) (offset length : Bool → UInt64)
    (hlength : ∀ w, length w = 2 ∨ length w = 4 ∨ length w = 8)
    (hin : ∀ w, (offset w).toNat + (length w).toNat ≤ 64) :
    Yields Failure.Harmless (image.number (offset wide) (length wide)) fun number =>
      number = fieldAt content 0 (offset wide) (length wide) := by
  rw [fieldAt, Nat.zero_add]
  exact yields_number h (hlength wide) (hheader.of_le (Nat.zero_le _) (hin wide))

theorem yields_sectionTable : Yields Failure.Harmless image.sectionTable fun table =>
    ∃ wide, TableOf content wide table := by
  unfold ElfImage.sectionTable
  refine (yields_is64 h hheader).bind fun wide hwide => ?_
  refine (yields_headerField h hheader wide (fun w => if w then 40 else 32)
    (fun w => if w then 8 else 4) (by decide) (by decide)).bind fun offset hoffset => ?_
  refine (yields_headerField h hheader wide (fun w => if w then 58 else 46) (fun _ => 2)
    (by decide) (by decide)).bind fun size hsize => ?_
  refine (yields_headerField h hheader wide (fun w => if w then 60 else 48) (fun _ => 2)
    (by decide) (by decide)).bind fun count hcount => ?_
  refine (yields_headerField h hheader wide (fun w => if w then 62 else 50) (fun _ => 2)
    (by decide) (by decide)).bind fun names hnames => ?_
  refine (yields_ensure _ _).bind fun _ hsupported => Yields.pure ⟨wide, hwide, ?_, ?_, ?_, ?_⟩
  · rw [hoffset, hsize, hcount, hnames]
  · exact UInt64.le_iff_toNat_le.mp hsupported.2.1
  · rw [hsupported.2.2.1]
    cases wide <;> rfl
  · exact UInt64.lt_iff_toNat_lt.mp hsupported.2.2.2

/-- The first stage asks for the section table. -/
theorem yields_tables : Yields Failure.Harmless image.tables fun out => Selected content out ∧
    ∀ wide table, TableOf content wide table →
      Provided image out table.1.toNat
        (table.1.toNat + table.2.2.1.toNat * table.2.1.toNat) := by
  unfold ElfImage.tables
  refine (yields_sectionTable h hheader).bind fun table ⟨wide, htable⟩ => ?_
  obtain ⟨offset, size, count, names⟩ := table
  dsimp only
  refine (yields_is64 h hheader).bind fun wide' _ => ?_
  refine (yields_headerField h hheader wide' (fun w => if w then 32 else 28)
    (fun w => if w then 8 else 4) (by decide) (by decide)).bind fun programs _ => ?_
  refine (yields_headerField h hheader wide' (fun w => if w then 54 else 42) (fun _ => 2)
    (by decide) (by decide)).bind fun entrySize hentrySize => ?_
  refine (yields_headerField h hheader wide' (fun w => if w then 56 else 44) (fun _ => 2)
    (by decide) (by decide)).bind fun entries _ => ?_
  refine (yields_ensure _ _).bind fun _ hentries => ?_
  have hsize : size.toNat ≤ 64 := by
    rw [htable.size]
    cases wide <;> decide
  have hcount : count.toNat ≤ 4096 := htable.count_le
  have hpositive : 0 < count.toNat := Nat.zero_lt_of_lt htable.names_lt
  have hentries : entries.toNat ≤ 4096 := UInt64.le_iff_toNat_le.mp hentries
  have hentrySize : entrySize.toNat < 256 ^ 2 := by
    rw [hentrySize]
    exact toNat_numberAt_lt _ _ _
  have htableSize : size.toNat * count.toNat ≤ 64 * 4096 := Nat.mul_le_mul hsize hcount
  have hprogramSize : entrySize.toNat * entries.toNat ≤ 256 ^ 2 * 4096 :=
    Nat.mul_le_mul (Nat.le_of_lt hentrySize) hentries
  refine (yields_mulU64 (Nat.lt_of_le_of_lt htableSize (by decide))).bind
    fun sectionLength hsectionLength => ?_
  refine (yields_mulU64 (Nat.lt_of_le_of_lt hprogramSize (by decide))).bind
    fun programLength _ => ?_
  refine (yields_ranges h _).mono fun out hout => ⟨hout.1, fun wide'' table' htable' => ?_⟩
  obtain ⟨-, rfl⟩ := htable'.unique htable
  have hlength : sectionLength ≠ 0 := by
    rintro rfl
    have hentry : 0 < size.toNat := by
      rw [htable.size]
      cases wide <;> decide
    exact absurd hsectionLength (Nat.mul_pos hentry hpositive).ne
  have hprovided := hout.2 ⟨offset, sectionLength⟩ List.mem_cons_self hlength
  dsimp only at hprovided ⊢
  rw [hsectionLength, Nat.mul_comm] at hprovided
  exact hprovided

end Header

/-! ## The sections -/

/-- The entry of a section in the section table. -/
def entryOf (content : List UInt8) (wide : Bool) (table : UInt64 × UInt64 × UInt64 × UInt64)
    (index : ℕ) : UInt64 × UInt64 × UInt64 × UInt64 :=
  let start := table.1.toNat + index * table.2.1.toNat
  (fieldAt content start 0 4, fieldAt content start 4 4,
    fieldAt content start (if wide then 24 else 16) (if wide then 8 else 4),
    fieldAt content start (if wide then 32 else 20) (if wide then 8 else 4))

/-- The image has the header, and the section table that it says. -/
structure HasTable (content : List UInt8) (image : ElfImage) : Prop where
  header : image.Covers 0 64
  table : ∀ wide table, TableOf content wide table →
    image.Covers table.1.toNat (table.1.toNat + table.2.2.1.toNat * table.2.1.toNat)

section Sections

variable {image : ElfImage} (h : ImageOf content received image) (htable : HasTable content image)

include h htable

/-- A field of an entry, at its place in each class. -/
theorem yields_entryField {wide : Bool} {table : UInt64 × UInt64 × UInt64 × UInt64}
    (ht : TableOf content wide table) {index start : UInt64}
    (hindex : index.toNat < table.2.2.1.toNat)
    (hstart : start.toNat = table.1.toNat + index.toNat * table.2.1.toNat) {place : UInt64}
    (offset length : Bool → UInt64) (hat : place.toNat = start.toNat + (offset wide).toNat)
    (hlength : ∀ w, length w = 2 ∨ length w = 4 ∨ length w = 8)
    (hin : ∀ w, (offset w).toNat + (length w).toNat ≤ if w then 64 else 40) :
    Yields Failure.Harmless (image.number place (length wide)) fun number =>
      number = fieldAt content start.toNat (offset wide) (length wide) := by
  have hentry : (index.toNat + 1) * table.2.1.toNat ≤ table.2.2.1.toNat * table.2.1.toNat :=
    Nat.mul_le_mul_right _ hindex
  have hfield := hin wide
  rw [← ht.size] at hfield
  rw [Nat.succ_mul] at hentry
  rw [fieldAt, ← hat]
  refine yields_number h (hlength wide) ((htable.table wide table ht).of_le ?_ ?_)
  · omega
  · omega

theorem yields_sectionEntry (index : UInt64) :
    Yields Failure.Harmless (image.sectionEntry index) fun entry =>
      ∃ wide table, TableOf content wide table ∧ index.toNat < table.2.2.1.toNat ∧
        entry = entryOf content wide table index.toNat := by
  unfold ElfImage.sectionEntry
  refine (yields_sectionTable h htable.header).bind fun table ⟨wide, ht⟩ => ?_
  obtain ⟨offset, size, count, names⟩ := table
  dsimp only
  refine (yields_ensure _ _).bind fun _ hindex => ?_
  have hindex : index.toNat < count.toNat := UInt64.lt_iff_toNat_lt.mp hindex
  have hfile := (htable.table wide _ ht).le_length h
  dsimp only at hfile
  have hlt := maxFileSize_lt
  have hfits := h.fits
  have hentry : (index.toNat + 1) * size.toNat ≤ count.toNat * size.toNat :=
    Nat.mul_le_mul_right _ hindex
  rw [Nat.succ_mul] at hentry
  have hsize : 40 ≤ size.toNat := by
    rw [ht.size]
    cases wide <;> decide
  refine (yields_mulU64 (by omega)).bind fun skipped hskipped => ?_
  refine (yields_addU64 (by omega)).bind fun start hstart => ?_
  rw [hskipped] at hstart
  -- no place of a field overflows, as the whole table is in the file
  have hsmall : start.toNat + 40 < 2 ^ 64 := by
    have hfileSize : maxFileSize + 40 < 2 ^ 64 := by decide
    omega
  refine (yields_is64 h htable.header).bind fun wide' hwide => ?_
  obtain rfl := ht.header.unique hwide
  have hplace (offset : Bool → UInt64) (hoffset : ∀ w, (offset w).toNat ≤ 40) :
      Yields Failure.Harmless (addU64 start (offset wide)) fun place =>
        place.toNat = start.toNat + (offset wide).toNat :=
    yields_addU64 (Nat.lt_of_le_of_lt (Nat.add_le_add_left (hoffset wide) _) hsmall)
  refine (yields_entryField h htable ht hindex hstart (fun _ => 0) (fun _ => 4) rfl
    (by decide) (by decide)).bind fun name hname => ?_
  refine (hplace (fun _ => 4) (by decide)).bind fun kindAt hkindAt => ?_
  refine (yields_entryField h htable ht hindex hstart (fun _ => 4) (fun _ => 4) hkindAt
    (by decide) (by decide)).bind fun kind hkind => ?_
  refine (hplace (fun w => if w then 24 else 16) (by decide)).bind fun offsetAt hoffsetAt => ?_
  refine (yields_entryField h htable ht hindex hstart (fun w => if w then 24 else 16)
    (fun w => if w then 8 else 4) hoffsetAt (by decide) (by decide)).bind fun offset hoffset => ?_
  refine (hplace (fun w => if w then 32 else 20) (by decide)).bind fun lengthAt hlengthAt => ?_
  refine (yields_entryField h htable ht hindex hstart (fun w => if w then 32 else 20)
    (fun w => if w then 8 else 4) hlengthAt (by decide) (by decide)).bind fun length hlength => ?_
  refine Yields.pure ⟨wide, _, ht, hindex, ?_⟩
  rw [hname, hkind, hoffset, hlength, hstart]
  rfl

/-- The second stage asks for the names of the sections. -/
theorem yields_names : Yields Failure.Harmless image.names fun out => Selected content out ∧
    ∀ wide table, TableOf content wide table →
      (entryOf content wide table table.2.2.2.toNat).2.2.2 ≠ 0 →
      Provided image out (entryOf content wide table table.2.2.2.toNat).2.2.1.toNat
        ((entryOf content wide table table.2.2.2.toNat).2.2.1.toNat +
          (entryOf content wide table table.2.2.2.toNat).2.2.2.toNat) := by
  unfold ElfImage.names
  refine (yields_sectionTable h htable.header).bind fun table ⟨wide, ht⟩ => ?_
  obtain ⟨offset, size, count, names⟩ := table
  dsimp only
  refine (yields_sectionEntry h htable names).bind fun entry ⟨wide', table', ht', _, hentry⟩ => ?_
  obtain ⟨rfl, rfl⟩ := ht'.unique ht
  subst hentry
  refine (yields_ranges h _).mono fun out hout => ⟨hout.1, fun wide'' table'' ht'' hne => ?_⟩
  obtain ⟨rfl, rfl⟩ := ht''.unique ht
  exact hout.2 _ (List.mem_singleton_self _) hne

/-- A section is selected by what its entry and its name say. -/
theorem yields_selectSection (names : List UInt8) (selected : List FileRange) (index : ℕ) :
    Yields Failure.Harmless (image.selectSection names selected index) fun _ => True := by
  unfold ElfImage.selectSection
  refine (yields_sectionEntry h htable (.ofNat index)).bind fun entry _ => ?_
  obtain ⟨name, kind, offset, length⟩ := entry
  dsimp only
  refine Yields.ite (fun _ => Yields.pure trivial) fun _ => ?_
  refine (yields_ensure _ _).bind fun _ _ => ?_
  generalize names.drop name.toNat = text
  cases hstop : text.findIdx? (· = 0) with
  | none => exact Yields.error (Failure.harmless_error _)
  | some stop =>
    have hstop : stop ≤ text.length := by
      obtain ⟨hlt, -⟩ := List.findIdx?_eq_some_iff_getElem.mp hstop
      exact Nat.le_of_lt hlt
    refine (yields_sliceBytes (Nat.zero_le _) hstop).bind fun text _ => ?_
    cases String.fromUTF8? text.toByteArray with
    | none => exact Yields.error (Failure.harmless_error _)
    | some name =>
      refine Yields.ite (fun _ => ?_) fun _ => Yields.pure trivial
      exact (yields_ensure _ _).bind fun _ _ => Yields.pure trivial

/-- The third stage reads the names and asks for the sections that are needed. -/
theorem yields_sections
    (hnames : ∀ wide table, TableOf content wide table →
      (entryOf content wide table table.2.2.2.toNat).2.2.2 ≠ 0 →
      image.Covers (entryOf content wide table table.2.2.2.toNat).2.2.1.toNat
        ((entryOf content wide table table.2.2.2.toNat).2.2.1.toNat +
          (entryOf content wide table table.2.2.2.toNat).2.2.2.toNat)) :
    Yields Failure.Harmless image.sections (Selected content) := by
  unfold ElfImage.sections
  refine (yields_sectionTable h htable.header).bind fun table ⟨wide, ht⟩ => ?_
  obtain ⟨offset, size, count, index⟩ := table
  dsimp only
  refine (yields_sectionEntry h htable index).bind fun entry ⟨wide', table', ht', _, hentry⟩ => ?_
  obtain ⟨rfl, rfl⟩ := ht'.unique ht
  subst hentry
  refine (yields_bytes h (hnames _ _ ht)).bind fun names _ => ?_
  have hloop : Yields Failure.Harmless
      ((List.range count.toNat).foldlM (image.selectSection names) []) fun _ => True :=
    Yields.foldlM (fun _ _ => True) _ trivial fun _ index _ selected _ _ =>
      yields_selectSection h htable names selected index
  refine hloop.bind fun needed _ => ?_
  exact (yields_ranges h needed).mono fun out hout => hout.1

end Sections

end Procinsh
