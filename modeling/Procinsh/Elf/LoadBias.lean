import Procinsh.Elf.Resolve

/-!
# The load bias of a mapped segment

The loader maps the pages of each loaded segment at its address plus the bias of the file.  Going
back, `elfAddress` has only the offset in the file, and takes the first segment whose pages have it.
Segments may share a page of the file, and then it is the wrong one: two segments with the same page
in the file have different pages in memory, so that the result is right exactly if no earlier
segment has the page.
-/

namespace Procinsh

open Ipc

/-! ## Loaded files -/

/-- A program header of a loaded segment. -/
structure LoadSegment where
  offset : UInt64
  vaddr : UInt64
  filesz : UInt64
  memsz : UInt64

namespace LoadSegment

/-- What is kept of a program header. -/
def elfSegment (s : LoadSegment) : ElfSegment := (s.offset, s.filesz, s.vaddr)

/-- The addresses of the pages of a segment in memory. -/
def InMemory (page : ℕ) (s : LoadSegment) (x : ℤ) : Prop :=
  pageFloor page s.vaddr.toNat ≤ x ∧ x < pageCeil page (s.vaddr.toNat + s.memsz.toNat)

/-- The addresses of a segment's bytes in the file and of the page padding before them. -/
def InBytes (page : ℕ) (s : LoadSegment) (x : ℤ) : Prop :=
  pageFloor page s.vaddr.toNat ≤ x ∧ x < s.vaddr.toNat + s.filesz.toNat

/-- The offsets of a segment's bytes in the file. -/
def InFile (s : LoadSegment) (x : ℕ) : Prop :=
  s.offset.toNat ≤ x ∧ x < s.offset.toNat + s.filesz.toNat

end LoadSegment

/-- The loaded segments of a file, as linkers lay them out and loaders demand. -/
structure LoadableSegments (page : ℕ) (segments : List LoadSegment) : Prop where
  /-- Offsets and addresses have the same place in their page. -/
  congruent : ∀ s ∈ segments, s.offset.toNat % page = s.vaddr.toNat % page
  /-- A segment's bytes in the file are in a file. -/
  inFile : ∀ s ∈ segments, s.offset.toNat + s.filesz.toNat < 2 ^ 64
  /-- A segment's addresses are addresses. -/
  inMemory : ∀ s ∈ segments, s.vaddr.toNat + s.memsz.toNat ≤ 2 ^ 64
  /-- A segment's bytes in the file are mapped to its memory. -/
  filesz_le : ∀ s ∈ segments, s.filesz ≤ s.memsz
  ascending : segments.Pairwise fun s t => s.vaddr ≤ t.vaddr
  /-- No two segments share a page in memory. -/
  memory : segments.Pairwise fun s t => ∀ x, ¬ (s.InMemory page x ∧ t.InMemory page x)
  /-- No two segments share a byte of the file. -/
  files : segments.Pairwise fun s t => ∀ x, ¬ (s.InFile x ∧ t.InFile x)

/-- A mapping of the pages of a segment's bytes with a load bias, or some pages of it. -/
structure MapsSegment (page : ℕ) (bias : ℤ) (s : LoadSegment) (m : MemoryMap) : Prop where
  /-- The pages of the segment that are not in the mapping. -/
  start : ∃ skipped : ℕ,
    (m.start.toNat : ℤ) = bias + pageFloor page s.vaddr.toNat + skipped * page ∧
      m.fileOffset.toNat = pageFloor page s.offset.toNat + skipped * page
  stop : (m.stop.toNat : ℤ) ≤ bias + pageCeil page (s.vaddr.toNat + s.filesz.toNat)
  aligned : (page : ℤ) ∣ bias ∧ (page : ℤ) ∣ m.stop.toNat

/-- The offset in the file of an address of a mapping. -/
def fileOffset (m : MemoryMap) (address : UInt64) : ℕ :=
  address.toNat - m.start.toNat + m.fileOffset.toNat

/-! ## What translating back should be -/

/-- Addresses of a mapping are translated back to those of the file: each address of the segment's
bytes, the start of an executable mapping, whose module has the load bias, and a return address at
its end. -/
structure TranslatesBack (page : UInt64) (bias : ℤ) (elf : ElfSymbols) (s : LoadSegment)
    (m : MemoryMap) : Prop where
  address : ∀ a, m.contains a → s.InBytes page.toNat (a.toNat - bias) →
    ∃ v, elfAddress a m elf page = some v ∧ (v.toNat : ℤ) = a.toNat - bias
  base : m.executable → m.contains m.start → s.InBytes page.toNat (m.start.toNat - bias) →
    ∀ (u : StackUnwinder) (maps : List MemoryMap) (symbols : MemoryMap → Option ElfSymbols),
      m ∈ maps → symbols m = some elf → StackUnwinder.mappingKeys maps ≠ u.mappings →
        ∃ base : UInt64, (base.toNat : ℤ) = bias ∧
          ⟨m.pathname.getD "", m.start, m.stop, base, elf.unwind⟩ ∈
            (u.refresh page maps symbols).unwinder
  returnAddress : m.start < m.stop → s.InBytes page.toNat (m.stop.toNat - 1 - bias) →
    ∃ v, elfAddress (instructionAddress m.stop true) m elf page = some v ∧
      (v.toNat : ℤ) = m.stop.toNat - 1 - bias

/-- No segment before has a page of the file that the addresses of a mapping are in, and the load
bias of an executable mapping is not negative. -/
structure FirstOfPages (page : UInt64) (bias : ℤ) (before : List LoadSegment) (s : LoadSegment)
    (m : MemoryMap) : Prop where
  pages : ∀ a, m.contains a → s.InBytes page.toNat (a.toNat - bias) →
    ∀ t ∈ before, inFilePages page t.elfSegment (fileOffset m a) = false
  bias : m.executable → m.contains m.start → s.InBytes page.toNat (m.start.toNat - bias) → 0 ≤ bias

section Segment

variable {page : UInt64} {bias : ℤ} {s : LoadSegment} {m : MemoryMap}

theorem contains_iff {a : UInt64} :
    m.contains a ↔ m.start.toNat ≤ a.toNat ∧ a.toNat < m.stop.toNat := by
  rw [MemoryMap.contains, Bool.and_eq_true, decide_eq_true_eq, decide_eq_true_eq,
    UInt64.le_iff_toNat_le, UInt64.lt_iff_toNat_lt]

/-- The offset in the file of an address of a segment. -/
theorem fileOffset_eq (hs : s.offset.toNat % page.toNat = s.vaddr.toNat % page.toNat)
    (hm : MapsSegment page.toNat bias s m) {a : UInt64} (ha : m.contains a) :
    (fileOffset m a : ℤ) = a.toNat - bias - s.vaddr.toNat + s.offset.toNat := by
  obtain ⟨skipped, hstart, hoffset⟩ := hm.start
  have hle := (contains_iff.mp ha).1
  have hfloor := pageFloor_add_of_mod_eq hs
  have hsum : (fileOffset m a : ℤ) = a.toNat - m.start.toNat + m.fileOffset.toNat := by
    rw [fileOffset]
    omega
  rw [hsum, hstart, hoffset]
  push_cast
  omega

/-- The pages of a segment in the file have an offset exactly if its pages in memory have the
address. -/
theorem inFilePages_iff (hpage : 0 < page.toNat)
    (hs : s.offset.toNat % page.toNat = s.vaddr.toNat % page.toNat) (offset : ℕ) :
    inFilePages page s.elfSegment offset ↔
      (pageFloor page.toNat s.vaddr.toNat : ℤ) ≤ offset + s.vaddr.toNat - s.offset.toNat ∧
        (offset + s.vaddr.toNat - s.offset.toNat : ℤ) <
          pageCeil page.toNat (s.vaddr.toNat + s.filesz.toNat) := by
  have hfloor := pageFloor_add_of_mod_eq hs
  have hceil := pageCeil_add_of_mod_eq hpage hs s.filesz.toNat
  rw [inFilePages, Bool.and_eq_true, decide_eq_true_eq, decide_eq_true_eq, LoadSegment.elfSegment]
  dsimp only
  omega

/-- An address of a segment's bytes is in its pages of the file. -/
theorem inFilePages_fileOffset (hpage : 0 < page.toNat)
    (hs : s.offset.toNat % page.toNat = s.vaddr.toNat % page.toNat)
    (hm : MapsSegment page.toNat bias s m) {a : UInt64} (ha : m.contains a)
    (hin : s.InBytes page.toNat (a.toNat - bias)) :
    inFilePages page s.elfSegment (fileOffset m a) := by
  have hoffset := fileOffset_eq hs hm ha
  have hceil := le_pageCeil hpage (s.vaddr.toNat + s.filesz.toNat)
  obtain ⟨hlow, hhigh⟩ := hin
  rw [inFilePages_iff hpage hs, hoffset]
  omega

/-- Another segment whose pages of the file have the offset is at another distance in memory. -/
theorem ne_of_inFilePages (hpage : 0 < page.toNat) {t : LoadSegment}
    (ht : t.offset.toNat % page.toNat = t.vaddr.toNat % page.toNat) (hsize : t.filesz ≤ t.memsz)
    (hsize' : s.filesz ≤ s.memsz)
    (hdisjoint : ∀ x, ¬ (t.InMemory page.toNat x ∧ s.InMemory page.toNat x)) {offset : ℕ} {x : ℤ}
    (hin : s.InBytes page.toNat x) (hpages : inFilePages page t.elfSegment offset) :
    (offset + t.vaddr.toNat - t.offset.toNat : ℤ) ≠ x := by
  rintro rfl
  obtain ⟨hlow, hhigh⟩ := (inFilePages_iff hpage ht offset).mp hpages
  have hbytes := UInt64.le_iff_toNat_le.mp hsize
  have hbytes' := UInt64.le_iff_toNat_le.mp hsize'
  have hceil := pageCeil_le_pageCeil page.toNat (Nat.add_le_add_left hbytes t.vaddr.toNat)
  have hceil' := le_pageCeil hpage (s.vaddr.toNat + s.memsz.toNat)
  obtain ⟨hstart, hstop⟩ := hin
  exact hdisjoint _ ⟨⟨hlow, by omega⟩, ⟨hstart, by omega⟩⟩

end Segment

/-! ## Translating back -/

section Translate

variable {page : UInt64} {bias : ℤ} {before after : List LoadSegment} {s : LoadSegment}
  {m : MemoryMap}

/-- The symbols of a file with some loaded segments. -/
def symbolsOf (unwind : UnwindSections) (segments : List LoadSegment) : ElfSymbols :=
  ⟨unwind, segments.map LoadSegment.elfSegment⟩

/-- What `elfAddress` returns for an address of a segment is what the first segment with the page
says. -/
theorem elfAddress_iff {unwind : UnwindSections} {segments : List LoadSegment}
    (hpage : page ≠ 0) (hs : s.offset.toNat % page.toNat = s.vaddr.toNat % page.toNat)
    (hfile : s.offset.toNat + s.filesz.toNat < 2 ^ 64) (hm : MapsSegment page.toNat bias s m)
    {a : UInt64} (ha : m.contains a) (hin : s.InBytes page.toNat (a.toNat - bias))
    {t : LoadSegment}
    (hfind : segments.find? (fun t => inFilePages page t.elfSegment (fileOffset m a)) = some t)
    (v : UInt64) :
    elfAddress a m (symbolsOf unwind segments) page = some v ↔
      (v.toNat : ℤ) = fileOffset m a + t.vaddr.toNat - t.offset.toNat := by
  have hoffset := fileOffset_eq hs hm ha
  have hfits : fileOffset m a < 2 ^ 64 := by
    have hhigh := hin.2
    omega
  have hsegment : (segments.map LoadSegment.elfSegment).find?
      (fun segment => inFilePages page segment (fileOffset m a)) = some t.elfSegment := by
    rw [List.find?_map]
    exact congrArg (Option.map LoadSegment.elfSegment) hfind
  have hguard : ¬ (page = 0 ∨ ¬ m.contains a) := not_or.mpr ⟨hpage, not_not.mpr ha⟩
  unfold fileOffset at hfits hsegment ⊢
  rw [elfAddress, if_neg hguard]
  dsimp only
  rw [if_neg (Nat.not_le.mpr hfits), symbolsOf]
  dsimp only
  rw [hsegment, LoadSegment.elfSegment]
  dsimp only
  have hv := v.toNat_lt
  generalize ((a.toNat - m.start.toNat + m.fileOffset.toNat : ℕ) + t.vaddr.toNat -
    t.offset.toNat : ℤ) = result
  constructor
  · intro h
    split at h
    · next hrange =>
      have hnat : result.toNat < UInt64.size := by
        change result.toNat < 2 ^ 64
        omega
      rw [← Option.some_inj.mp h, UInt64.toNat_ofNat_of_lt' hnat]
      exact Int.toNat_of_nonneg hrange.1
    · exact absurd h.symm (Option.some_ne_none v)
  · rintro rfl
    rw [if_pos ⟨Int.natCast_nonneg _, by omega⟩, Int.toNat_natCast, UInt64.ofNat_toNat]

theorem address_iff {unwind : UnwindSections} (hpage : page ≠ 0)
    (hall : LoadableSegments page.toNat (before ++ s :: after))
    (hm : MapsSegment page.toNat bias s m) {a : UInt64} (ha : m.contains a)
    (hin : s.InBytes page.toNat (a.toNat - bias)) :
    (∃ v, elfAddress a m (symbolsOf unwind (before ++ s :: after)) page = some v ∧
        (v.toNat : ℤ) = a.toNat - bias) ↔
      ∀ t ∈ before, inFilePages page t.elfSegment (fileOffset m a) = false := by
  have hpos : 0 < page.toNat :=
    Nat.pos_of_ne_zero fun h => hpage (UInt64.toNat_inj.mp h)
  have hmem : s ∈ before ++ s :: after := List.mem_append_right _ List.mem_cons_self
  have hs := hall.congruent s hmem
  have hself := inFilePages_fileOffset hpos hs hm ha hin
  have hoffset := fileOffset_eq hs hm ha
  constructor
  · rintro ⟨v, hv, hvalue⟩
    by_contra hearlier
    rw [not_forall] at hearlier
    obtain ⟨r, hr⟩ := hearlier
    obtain ⟨hr, hpages⟩ := Classical.not_imp.mp hr
    -- The first segment with the page is an earlier one, and says another address.
    obtain ⟨t, hfirst⟩ := Option.isSome_iff_exists.mp
      (List.find?_isSome.mpr ⟨r, hr, Bool.of_not_eq_false hpages⟩ :
        (before.find? fun t => inFilePages page t.elfSegment (fileOffset m a)).isSome)
    have ht := List.mem_of_find?_eq_some hfirst
    have hpagesFirst : inFilePages page t.elfSegment (fileOffset m a) := by
      simpa using List.find?_some hfirst
    have htall : t ∈ before ++ s :: after := List.mem_append_left _ ht
    have hfind : (before ++ s :: after).find?
        (fun t => inFilePages page t.elfSegment (fileOffset m a)) = some t := by
      rw [List.find?_append, hfirst]
      rfl
    have hsays := (elfAddress_iff hpage hs (hall.inFile s hmem) hm ha hin hfind v).mp hv
    have hdisjoint := (List.pairwise_append.mp hall.memory).2.2 t ht s List.mem_cons_self
    refine ne_of_inFilePages hpos (hall.congruent t htall) (hall.filesz_le t htall)
      (hall.filesz_le s hmem) hdisjoint hin hpagesFirst ?_
    rw [← hsays, hvalue]
  · intro hearlier
    have hnone : before.find? (fun t => inFilePages page t.elfSegment (fileOffset m a)) = none :=
      List.find?_eq_none.mpr fun t ht => by rw [hearlier t ht]; exact Bool.false_ne_true
    have hfind : (before ++ s :: after).find?
        (fun t => inFilePages page t.elfSegment (fileOffset m a)) = some s := by
      rw [List.find?_append, hnone, Option.none_or, List.find?_cons, hself]
    have hvalue : (fileOffset m a + s.vaddr.toNat - s.offset.toNat : ℤ) = a.toNat - bias := by
      omega
    have hrange : 0 ≤ (a.toNat - bias : ℤ) ∧ (a.toNat - bias : ℤ) < 2 ^ 64 := by
      have hmemory := hall.inMemory s hmem
      have hbytes := UInt64.le_iff_toNat_le.mp (hall.filesz_le s hmem)
      obtain ⟨hlow, hhigh⟩ := hin
      omega
    have hnat : (a.toNat - bias : ℤ).toNat < UInt64.size := by
      change (a.toNat - bias : ℤ).toNat < 2 ^ 64
      omega
    have hv : ((UInt64.ofNat (a.toNat - bias : ℤ).toNat).toNat : ℤ) = a.toNat - bias := by
      rw [UInt64.toNat_ofNat_of_lt' hnat]
      exact Int.toNat_of_nonneg hrange.1
    refine ⟨_, (elfAddress_iff hpage hs (hall.inFile s hmem) hm ha hin hfind _).mpr ?_, hv⟩
    rw [hv, hvalue]

/-- A mapping is translated back exactly if no earlier segment has a page of the file that the
mapping's addresses are in, and the load bias of an executable mapping is not negative. -/
theorem translatesBack_iff {unwind : UnwindSections} (hpage : page ≠ 0)
    (hall : LoadableSegments page.toNat (before ++ s :: after))
    (hm : MapsSegment page.toNat bias s m) :
    TranslatesBack page bias (symbolsOf unwind (before ++ s :: after)) s m ↔
      FirstOfPages page bias before s m := by
  constructor
  · intro h
    refine ⟨fun a ha hin => (address_iff hpage hall hm ha hin).mp (h.address a ha hin), ?_⟩
    intro hexecutable hstart hin
    have hkeys : StackUnwinder.mappingKeys [m] ≠ StackUnwinder.default.mappings := by
      rw [StackUnwinder.mappingKeys, List.filter_cons_of_pos hexecutable]
      exact List.cons_ne_nil _ _
    obtain ⟨base, hbase, -⟩ := h.base hexecutable hstart hin .default [m] (fun _ => some _)
      (List.mem_singleton_self m) rfl hkeys
    rw [← hbase]
    exact Int.natCast_nonneg _
  · intro h
    have haddress (a : UInt64) (ha : m.contains a) (hin : s.InBytes page.toNat (a.toNat - bias)) :
        ∃ v, elfAddress a m (symbolsOf unwind (before ++ s :: after)) page = some v ∧
          (v.toNat : ℤ) = a.toNat - bias :=
      (address_iff hpage hall hm ha hin).mpr (h.pages a ha hin)
    refine ⟨haddress, ?_, ?_⟩
    · intro hexecutable hstart hin u maps symbols hmaps hsymbols hkeys
      obtain ⟨svma, hsvma, hvalue⟩ := haddress m.start hstart hin
      have hbias := h.bias hexecutable hstart hin
      have hle : svma.toNat ≤ m.start.toNat := by omega
      have hbase := UInt64.toNat_sub_of_le _ _ (UInt64.le_iff_toNat_le.mpr hle)
      refine ⟨m.start - svma, by omega, ?_⟩
      rw [StackUnwinder.unwinder_refresh hkeys]
      refine List.mem_filterMap.mpr ⟨m, List.mem_filter.mpr ⟨hmaps, hexecutable⟩, ?_⟩
      have hlt : ¬ m.start < svma :=
        fun hlt => absurd (UInt64.lt_iff_toNat_lt.mp hlt) (Nat.not_lt.mpr hle)
      rw [StackUnwinder.moduleOf, hsymbols, Option.bind_eq_bind, Option.bind_some, hsvma,
        Option.bind_eq_bind, Option.bind_some, if_neg hlt]
    · intro hlt hin
      have hlt := UInt64.lt_iff_toNat_lt.mp hlt
      have hlast : ((instructionAddress m.stop true).toNat : ℤ) = m.stop.toNat - 1 := by
        have hsub := toNat_saturatingSub m.stop 1
        have hone : (1 : UInt64).toNat = 1 := rfl
        rw [instructionAddress, if_pos rfl, hsub, hone]
        omega
      rw [← hlast] at hin ⊢
      exact haddress _ (contains_iff.mpr (by omega)) hin

end Translate

/-! ### Segments that share a page of the file -/

/-- The headers and the code of a file, with a gap of one page in memory only: the code begins in
the page of the file that the headers end in. -/
def headerSegment : LoadSegment := ⟨0, 0, 0x5a0, 0x5a0⟩

def codeSegment : LoadSegment := ⟨0x5a0, 0x15a0, 0x200, 0x200⟩

/-- The mapping of the code, with a load bias of 0x400000. -/
def codeMap : MemoryMap :=
  ⟨0x401000, 0x402000, true, false, true, true, 0, ⟨8, 1⟩, 42, none⟩

theorem loadable_sharedPage : LoadableSegments 4096 [headerSegment, codeSegment] := by
  have hmemory (x : ℤ) : ¬ (headerSegment.InMemory 4096 x ∧ codeSegment.InMemory 4096 x) := by
    rintro ⟨⟨-, hheader⟩, hcode, -⟩
    have hstop : pageCeil 4096 (headerSegment.vaddr.toNat + headerSegment.memsz.toNat) = 4096 := by
      decide
    have hstart : pageFloor 4096 codeSegment.vaddr.toNat = 4096 := by decide
    omega
  have hfile (x : ℕ) : ¬ (headerSegment.InFile x ∧ codeSegment.InFile x) := by
    rintro ⟨⟨-, hheader⟩, hcode, -⟩
    have hstop : headerSegment.offset.toNat + headerSegment.filesz.toNat = 0x5a0 := by decide
    have hstart : codeSegment.offset.toNat = 0x5a0 := by decide
    omega
  exact ⟨by decide, by decide, by decide, by decide, by decide, List.pairwise_pair.mpr hmemory,
    List.pairwise_pair.mpr hfile⟩

theorem mapsSegment_codeMap : MapsSegment 4096 0x400000 codeSegment codeMap :=
  ⟨⟨0, by decide, by decide⟩, by decide, by decide, by decide⟩

theorem translatesBack_codeMap :
    TranslatesBack 4096 0x400000 (symbolsOf ⟨none, none⟩ [headerSegment, codeSegment]) codeSegment
        codeMap ↔ FirstOfPages 4096 0x400000 [headerSegment] codeSegment codeMap := by
  have hpage : (4096 : UInt64) ≠ 0 := by decide
  have hall : LoadableSegments (4096 : UInt64).toNat ([headerSegment] ++ codeSegment :: []) :=
    loadable_sharedPage
  exact translatesBack_iff hpage hall mapsSegment_codeMap

/-- The first address of the code is taken for the address of the headers in the same page. -/
theorem not_translatesBack_codeMap :
    LoadableSegments 4096 [headerSegment, codeSegment] ∧
      MapsSegment 4096 0x400000 codeSegment codeMap ∧
      ¬ TranslatesBack 4096 0x400000 (symbolsOf ⟨none, none⟩ [headerSegment, codeSegment])
        codeSegment codeMap := by
  refine ⟨loadable_sharedPage, mapsSegment_codeMap, fun h => ?_⟩
  have hshared : elfAddress 0x4015a0 codeMap (symbolsOf ⟨none, none⟩ [headerSegment, codeSegment])
      4096 = some 0x5a0 := by decide +kernel
  obtain ⟨v, hv, hvalue⟩ := h.address 0x4015a0 (by decide)
    ⟨by decide, by decide⟩
  obtain rfl := Option.some_inj.mp (hshared.symm.trans hv)
  exact absurd hvalue (by decide)

end Procinsh
