import Mathlib.Algebra.Order.BigOperators.Group.List
import Procinsh.Elf.Selecting
import Procinsh.Ipc.RoundTrip

/-!
# Limits of the acquisition

The ranges that a stage selects are asked for in pieces.  Each piece fits in a request, the helper
accepts it and answers with slices of the file, and once all pieces are received the stage behind
can read what it parses.
-/

namespace Procinsh

open Ipc

/-! ## Pieces -/

section Pieces

variable {α : Type} {n : ℕ} {l piece : List α}

theorem length_le_of_mem_piecesOf (h : piece ∈ piecesOf n l) : piece.length ≤ n := by
  obtain ⟨i, -, rfl⟩ := List.mem_map.mp h
  exact List.length_take_le _ _

theorem sublist_of_mem_piecesOf (h : piece ∈ piecesOf n l) : piece.Sublist l := by
  obtain ⟨i, -, rfl⟩ := List.mem_map.mp h
  exact (List.take_sublist _ _).trans (List.drop_sublist _ _)

/-- Every element is in a piece. -/
theorem exists_mem_piecesOf (hn : 0 < n) {a : α} (h : a ∈ l) :
    ∃ piece ∈ piecesOf n l, a ∈ piece := by
  obtain ⟨k, hk, rfl⟩ := List.getElem_of_mem h
  have hsplit : k / n * n + k % n = k := by rw [Nat.mul_comm, Nat.div_add_mod]
  have hmod : k % n < n := Nat.mod_lt k hn
  refine ⟨_, List.mem_map.mpr ⟨k / n, List.mem_range.mpr ?_, rfl⟩, ?_⟩
  · have hlast : k / n ≤ (l.length - 1) / n := Nat.div_le_div_right (by omega)
    have hceil : (l.length + n - 1) / n = (l.length - 1) / n + 1 := by
      rw [← Nat.add_div_right _ hn]
      congr 1
      omega
    omega
  · have hget : ((l.drop (k / n * n)).take n)[k % n]? = some l[k] := by
      rw [List.getElem?_take_of_lt hmod, List.getElem?_drop, hsplit]
      exact List.getElem?_eq_getElem hk
    exact List.mem_of_getElem? hget

end Pieces

/-! ## Requests -/

/-- A request is within the limits of the helper. -/
structure Acceptable (content : List UInt8) (ranges : List FileRange) : Prop where
  count : ranges.length ≤ maxRanges
  selected : Selected content ranges

variable {content : List UInt8} {received : ℕ → Prop}

theorem Selected.piece {ranges piece : List FileRange} (h : Selected content ranges)
    (hpiece : piece ∈ piecesOf maxRanges ranges) : Acceptable content piece := by
  have hsub := sublist_of_mem_piecesOf hpiece
  refine ⟨length_le_of_mem_piecesOf hpiece, fun r hr => h.inFile r (hsub.subset hr), ?_⟩
  exact ((hsub.map _).sum_le_sum fun _ _ => Nat.zero_le _).trans h.total

/-- The helper adds up the lengths of ranges that it accepts. -/
theorem foldlM_checkRange {ranges : List FileRange} {total : ℕ}
    (hin : ∀ r ∈ ranges, r.offset.toNat + r.length.toNat ≤ content.length)
    (htotal : total + (ranges.map fun r => r.length.toNat).sum ≤ maxReadSize) :
    ranges.foldlM (checkRange content.length) total =
      .ok (total + (ranges.map fun r => r.length.toNat).sum) := by
  induction ranges generalizing total with
  | nil => rfl
  | cons r ranges ih =>
    obtain ⟨hr, hin⟩ := List.forall_mem_cons.mp hin
    rw [List.map_cons, List.sum_cons] at htotal ⊢
    have hmax : maxReadSize < 2 ^ 64 := by decide
    have hstep : checkRange content.length total r = .ok (total + r.length.toNat) := by
      rw [checkRange, if_neg (by omega), if_neg (by omega), if_neg (by omega)]
    rw [List.foldlM_cons, hstep]
    refine (ih hin (by omega)).trans ?_
    rw [Nat.add_assoc]

/-- The helper answers a request within its limits. -/
theorem readMappedFileRanges_of_acceptable (identity : ElfFileId) {ranges : List FileRange}
    (hfits : content.length ≤ maxFileSize) (h : Acceptable content ranges) :
    readMappedFileRanges identity content ranges =
      .ok (some ⟨identity, ranges.map (readChunk content)⟩) := by
  have htotal : 0 + (ranges.map fun r => r.length.toNat).sum ≤ maxReadSize := by
    rw [Nat.zero_add]
    exact h.selected.total
  rw [readMappedFileRanges, if_neg (Nat.not_lt.mpr hfits), if_neg (Nat.not_lt.mpr h.count),
    foldlM_checkRange h.selected.inFile htotal]

/-- The bytes of a request are received with its answer. -/
theorem isSlice_readChunk {r : FileRange} (hin : r.offset.toNat + r.length.toNat ≤ content.length)
    (hreceived : ∀ x, r.offset.toNat ≤ x → x < r.offset.toNat + r.length.toNat → received x) :
    IsSlice content received (readChunk content r) ∧
      (readChunk content r).Spans r.offset.toNat (r.offset.toNat + r.length.toNat) := by
  have hlength : (readChunk content r).bytes.length = r.length.toNat := length_contentAt hin
  refine ⟨⟨?_, ?_, ?_⟩, le_rfl, ?_⟩
  · rw [hlength]
    exact hin
  · rw [hlength]
    rfl
  · rw [hlength]
    exact hreceived
  · rw [hlength]
    exact le_rfl

/-! ### The size of a request -/

/-- The writer appends a number of bytes, if they fit. -/
def WritesLength (w : Writer) (n : ℕ) : Prop := ∃ bytes, Writes w bytes ∧ bytes.length = n

theorem WritesLength.bind {w : Writer} {f : Unit → Writer} {m n : ℕ} (hw : WritesLength w m)
    (hf : WritesLength (f ()) n) : WritesLength (w >>= f) (m + n) := by
  obtain ⟨x, hx, hm⟩ := hw
  obtain ⟨y, hy, hn⟩ := hf
  exact ⟨x ++ y, hx.bind hy, by rw [List.length_append, hm, hn]⟩

theorem writesLength_number {α : Type} (size : ℕ) (toNat : α → ℕ) (ofNat : ℕ → α) (v : α) :
    WritesLength ((wireNumber size toNat ofNat).write v) size :=
  ⟨leBytes size (toNat v), writes_append _, length_leBytes _ _⟩

theorem writesLength_ranges (ranges : List FileRange) :
    WritesLength (writeAll ranges) (16 * ranges.length) := by
  induction ranges with
  | nil => exact ⟨[], writes_pure, rfl⟩
  | cons r ranges ih =>
    have hrange : WritesLength (write r) (8 + 8) :=
      (writesLength_number 8 UInt64.toNat UInt64.ofNat r.offset).bind
        (writesLength_number 8 UInt64.toNat UInt64.ofNat r.length)
    have hall := hrange.bind (f := fun _ => writeAll ranges) ih
    rw [List.length_cons, Nat.mul_succ, Nat.add_comm]
    exact hall

/-- A request for ranges takes 25 bytes and 16 for each range. -/
theorem writesLength_mappedElf (id : ProcessId) (mappingStart : UInt64) {ranges : List FileRange}
    (hcount : ranges.length ≤ u32Max) :
    WritesLength (write (MonitorRequest.mappedElf id mappingStart ranges))
      (25 + 16 * ranges.length) := by
  have hid : WritesLength (write id) (4 + 8) :=
    (writesLength_number 4 (fun v : Int32 => v.toUInt32.toNat)
      (fun n => (UInt32.ofNat n).toInt32) id.pid).bind
      (writesLength_number 8 UInt64.toNat UInt64.ofNat id.startTimeTicks)
  have hlength : WritesLength (writeLength ranges.length) 4 := by
    rw [writeLength, if_pos hcount]
    exact writesLength_number 4 UInt32.toNat UInt32.ofNat _
  have hranges : WritesLength (write ranges) (4 + 16 * ranges.length) :=
    hlength.bind (writesLength_ranges ranges)
  have hfields : WritesLength (write (id, mappingStart, ranges))
      ((4 + 8) + (8 + (4 + 16 * ranges.length))) :=
    hid.bind ((writesLength_number 8 UInt64.toNat UInt64.ofNat mappingStart).bind hranges)
  have htagged := (writesLength_number 1 UInt8.toNat UInt8.ofNat 2).bind
    (f := fun _ => write (id, mappingStart, ranges)) hfields
  have hsum : 25 + 16 * ranges.length = 1 + ((4 + 8) + (8 + (4 + 16 * ranges.length))) := by omega
  rw [hsum]
  exact htagged

/-- A request within the limits of the helper can be sent. -/
theorem encode_mappedElf (id : ProcessId) (mappingStart : UInt64) {ranges : List FileRange}
    (h : Acceptable content ranges) :
    ∃ bytes, encode (MonitorRequest.mappedElf id mappingStart ranges) maxRequest = .ok bytes := by
  have hcount : ranges.length ≤ 60 := h.count
  have hmax : 60 ≤ u32Max := by decide
  obtain ⟨bytes, hwrites, hlength⟩ :=
    writesLength_mappedElf id mappingStart (hcount.trans hmax)
  refine ⟨bytes, ?_⟩
  rw [hwrites.encode_eq, if_pos]
  have hlimit : 25 + 16 * 60 ≤ min maxRequest u32Max := by decide
  omega

/-! ## The acquisition -/

/-- The bytes that requests ask for. -/
def Asked (requests : List (List FileRange)) (x : ℕ) : Prop :=
  ∃ ranges ∈ requests, ∃ r ∈ ranges, r.offset.toNat ≤ x ∧ x < r.offset.toNat + r.length.toNat

theorem Asked.append_left {requests : List (List FileRange)} {x : ℕ} (h : Asked requests x)
    (more : List (List FileRange)) : Asked (requests ++ more) x := by
  obtain ⟨ranges, hranges, h⟩ := h
  exact ⟨ranges, List.mem_append_left _ hranges, h⟩

theorem Asked.append_right {requests : List (List FileRange)} {x : ℕ} (h : Asked requests x)
    (before : List (List FileRange)) : Asked (before ++ requests) x := by
  obtain ⟨ranges, hranges, h⟩ := h
  exact ⟨ranges, List.mem_append_right _ hranges, h⟩

section Stages

variable (identity : ElfFileId)

/-- Of the pieces only the first ones are asked for, and when all have been received, the image has
all of them. -/
theorem requestPieces_spec {pieces : List (List FileRange)} {image : ElfImage}
    (h : ImageOf content received image) (hpieces : ∀ piece ∈ pieces, Acceptable content piece)
    (hreceived : ∀ x, Asked pieces x → received x) :
    (requestPieces (readMappedFileRanges identity content) image pieces).1 <+: pieces ∧
      Yields Failure.Harmless (requestPieces (readMappedFileRanges identity content) image pieces).2
        fun found => ∀ next, found = some next →
          (requestPieces (readMappedFileRanges identity content) image pieces).1 = pieces ∧
          ImageOf content received next ∧
          (∀ lo hi, image.Covers lo hi → next.Covers lo hi) ∧
          ∀ piece ∈ pieces, ∀ r ∈ piece, ∀ lo hi, r.Spans lo hi → next.Covers lo hi := by
  induction pieces generalizing image with
  | nil =>
    refine ⟨List.prefix_rfl, Yields.ok fun next hnext => ?_⟩
    obtain rfl := Option.some_inj.mp hnext
    exact ⟨rfl, h, fun _ _ => id, fun piece hpiece => absurd hpiece List.not_mem_nil⟩
  | cons ranges pieces ih =>
    obtain ⟨hranges, hpieces⟩ := List.forall_mem_cons.mp hpieces
    have hserved := readMappedFileRanges_of_acceptable identity h.fits hranges
    have hslices : ∀ c ∈ ranges.map (readChunk content), IsSlice content received c := by
      intro c hc
      obtain ⟨r, hr, rfl⟩ := List.mem_map.mp hc
      refine (isSlice_readChunk (hranges.selected.inFile r hr) fun x hlo hhi => ?_).1
      exact hreceived x ⟨ranges, List.mem_cons_self, r, hr, hlo, hhi⟩
    let data : MappedFileData := ⟨identity, ranges.map (readChunk content)⟩
    have hdata : ∀ c ∈ data.chunks, IsSlice content received c := hslices
    have hextend := yields_extend h hdata
    unfold requestPieces
    rw [hserved]
    dsimp only
    cases hnext : image.extend ⟨identity, ranges.map (readChunk content)⟩ with
    | error failure =>
      exact ⟨⟨pieces, rfl⟩, Yields.error (hextend.allowed_of_eq hnext)⟩
    | ok extended =>
      obtain ⟨himage, hkept, hcovers, -⟩ := hextend.of_eq hnext
      have hreceived' (x : ℕ) (hx : Asked pieces x) : received x :=
        hreceived x (hx.append_right [ranges])
      obtain ⟨hasked, hyields⟩ := ih himage hpieces hreceived'
      refine ⟨List.prefix_cons_inj ranges |>.mpr hasked, hyields.mono fun found hfound => ?_⟩
      intro next hnext
      obtain ⟨hall, hnext, hkept', hcovers'⟩ := hfound next hnext
      refine ⟨congrArg (ranges :: ·) hall, hnext, fun lo hi hcov => hkept' lo hi (hkept lo hi hcov),
        List.forall_mem_cons.mpr ⟨?_, hcovers'⟩⟩
      intro r hr lo hi hspans
      have hchunk : (readChunk content r).Spans r.offset.toNat
          (r.offset.toNat + r.length.toNat) :=
        (isSlice_readChunk (hranges.selected.inFile r hr) fun x hlo hhi =>
          hreceived x ⟨ranges, List.mem_cons_self, r, hr, hlo, hhi⟩).2
      obtain ⟨hlo, hhi⟩ := hchunk
      refine hkept' lo hi (hcovers _ (List.mem_map_of_mem hr) lo hi ⟨?_, ?_⟩)
      · exact hlo.trans hspans.1
      · exact hspans.2.trans hhi

/-- What the stages that follow keep within the limits. -/
structure Limited (content : List UInt8) (received : ℕ → Prop) (run : Acquisition) : Prop where
  requests : ∀ ranges ∈ run.requests, Acceptable content ranges
  result : Yields Failure.Harmless run.result fun found =>
    ∀ image, found = some image → image ∈ run.parsed
  parsed : ∀ image ∈ run.parsed,
    ImageOf content (fun x => received x ∨ Asked run.requests x) image

/-- A stage asks for what the stages behind it need. -/
theorem limited_runStages_cons {stage : ElfImage → Checked (List FileRange)}
    {stages : List (ElfImage → Checked (List FileRange))} {image : ElfImage}
    {needed : ℕ → ℕ → Prop} (h : ImageOf content received image)
    (hstage : Yields Failure.Harmless (stage image) fun out => Selected content out ∧
      ∀ lo hi, needed lo hi → Provided image out lo hi)
    (hstages : ∀ (received' : ℕ → Prop) (next : ElfImage), ImageOf content received' next →
      (∀ lo hi, image.Covers lo hi → next.Covers lo hi) →
      (∀ lo hi, needed lo hi → next.Covers lo hi) →
      Limited content received' (runStages (readMappedFileRanges identity content) next stages)) :
    Limited content received
      (runStages (readMappedFileRanges identity content) image (stage :: stages)) := by
  have hparsed (requests : List (List FileRange)) : ∀ image' ∈ [image],
      ImageOf content (fun x => received x ∨ Asked requests x) image' :=
    List.forall_mem_singleton.mpr (h.mono fun _ => .inl)
  unfold runStages
  cases hranges : stage image with
  | error failure =>
    refine ⟨fun ranges hmem => absurd hmem List.not_mem_nil, ?_, hparsed _⟩
    exact Yields.error (hstage.allowed_of_eq hranges)
  | ok ranges =>
    obtain ⟨hselected, hprovided⟩ := hstage.of_eq hranges
    have hpieces : ∀ piece ∈ piecesOf maxRanges ranges, Acceptable content piece :=
      fun piece hpiece => hselected.piece hpiece
    have himage : ImageOf content
        (fun x => received x ∨ Asked (piecesOf maxRanges ranges) x) image := h.mono fun _ => .inl
    obtain ⟨hasked, hyields⟩ := requestPieces_spec identity himage hpieces fun _ => .inr
    dsimp only
    generalize requestPieces _ image _ = out at hasked hyields
    obtain ⟨requests, result⟩ := out
    have hrequests : ∀ ranges ∈ requests, Acceptable content ranges :=
      fun piece hpiece => hpieces piece (hasked.subset hpiece)
    cases result with
    | error failure => exact ⟨hrequests, Yields.error hyields, hparsed _⟩
    | ok found =>
      cases found with
      | none => exact ⟨hrequests, Yields.ok fun next hnext => absurd hnext.symm
          (Option.some_ne_none next), hparsed _⟩
      | some next =>
        obtain ⟨rfl, hnext, hkept, hcovers⟩ := hyields next rfl
        have hneeded (lo hi : ℕ) (hneed : needed lo hi) : next.Covers lo hi := by
          rcases hprovided lo hi hneed with hcov | ⟨r, hr, hspans⟩
          · exact hkept lo hi hcov
          · obtain ⟨piece, hpiece, hr⟩ := exists_mem_piecesOf (n := maxRanges) (by decide) hr
            exact hcovers piece hpiece r hr lo hi hspans
        have hrest := hstages _ next hnext hkept hneeded
        refine ⟨?_, ?_, ?_⟩
        · intro piece hpiece
          rcases List.mem_append.mp hpiece with hpiece | hpiece
          · exact hrequests piece hpiece
          · exact hrest.requests piece hpiece
        · exact hrest.result.mono fun found hfound image' himage' =>
            List.mem_cons_of_mem _ (hfound image' himage')
        · refine List.forall_mem_cons.mpr ⟨h.mono fun _ => .inl, fun image' himage' => ?_⟩
          refine (hrest.parsed image' himage').mono fun x hx => ?_
          rcases hx with (hx | hx) | hx
          · exact .inl hx
          · exact .inr (hx.append_left _)
          · exact .inr (hx.append_right _)

theorem limited_runStages_nil {image : ElfImage} (h : ImageOf content received image) :
    Limited content received (runStages (readMappedFileRanges identity content) image []) := by
  refine ⟨fun ranges hmem => absurd hmem List.not_mem_nil, Yields.ok fun image' himage' => ?_, ?_⟩
  · rw [← Option.some_inj.mp himage']
    exact List.mem_singleton_self image
  · exact List.forall_mem_singleton.mpr (h.mono fun _ => .inl)

end Stages

/-! ### The whole run -/

/-- Reading from an image never fails in another way than by lack of the bytes, and what is read is
what the file has and was received. -/
structure ReadsReceived (content : List UInt8) (received : ℕ → Prop) (image : ElfImage) : Prop where
  range : ∀ offset size, ∃ read, image.readBytesAt offset size = .ok read ∧
    ∀ bytes, read = some bytes → bytes = contentAt content offset.toNat size.toNat ∧
      ∀ x, offset.toNat ≤ x → x < offset.toNat + size.toNat → received x
  delimited : ∀ start stop delimiter, ∃ read,
    image.readBytesAtUntil start stop delimiter = .ok read ∧
    ∀ bytes, read = some bytes → bytes = contentAt content start.toNat bytes.length ∧
      ∀ x, start.toNat ≤ x → x < start.toNat + bytes.length → received x

theorem ImageOf.received_of_covers {image : ElfImage} (h : ImageOf content received image)
    {lo hi : ℕ} (hcovers : image.Covers lo hi) {x : ℕ} (hlo : lo ≤ x) (hhi : x < hi) :
    received x := by
  obtain ⟨c, hc, hstart, hstop⟩ := hcovers
  exact (h.chunks c hc).received x (hstart.trans hlo) (Nat.lt_of_lt_of_le hhi hstop)

theorem ImageOf.readsReceived {image : ElfImage} (h : ImageOf content received image) :
    ReadsReceived content received image := by
  constructor
  · intro offset size
    obtain ⟨read, hok, hsome, -⟩ := Yields.exists_ok (yields_readBytesAt h offset size)
    refine ⟨read, hok, fun bytes hbytes => ?_⟩
    obtain ⟨heq, hcovers⟩ := hsome bytes hbytes
    refine ⟨heq, fun x hlo hhi => ?_⟩
    have hsize : size ≠ 0 := by
      rintro rfl
      exact absurd hhi (Nat.not_lt.mpr hlo)
    exact h.received_of_covers (hcovers hsize) hlo hhi
  · intro start stop delimiter
    obtain ⟨read, hok, heq⟩ := Yields.exists_ok (yields_readBytesAtUntil h start stop delimiter)
    refine ⟨read, hok, fun bytes hbytes => ?_⟩
    rw [hbytes] at heq
    split at heq
    · cases heq
    · obtain ⟨hcovers, -, hbytes, -⟩ := h.exists_of_readUntil heq.symm
      exact ⟨hbytes, fun x hlo hhi => h.received_of_covers hcovers hlo (by omega)⟩

/-- An acquisition stays within the limits of both sides: it never panics, every request behind that
for the header can be sent and is accepted, and what is parsed was received. -/
structure WithinLimits (identity : ElfFileId) (content : List UInt8) (id : ProcessId)
    (mappingStart : UInt64) (run : Acquisition) : Prop where
  noPanic : ∀ failure, run.result = .error failure → ¬ failure.IsPanic
  sent : ∀ ranges ∈ run.requests.tail, ∃ bytes,
    encode (MonitorRequest.mappedElf id mappingStart ranges) maxRequest = .ok bytes
  accepted : ∀ ranges ∈ run.requests.tail, ranges.length ≤ maxRanges ∧
    (∀ r ∈ ranges, r.offset.toNat + r.length.toNat ≤ content.length) ∧
    (ranges.map fun r => r.length.toNat).sum ≤ maxReadSize ∧
    readMappedFileRanges identity content ranges =
      .ok (some ⟨identity, ranges.map (readChunk content)⟩)
  /-- Only an empty range can be missing where the image is parsed. -/
  present : ∀ offset length, run.result = .error (.missing offset length) → length = 0
  parsed : ∀ image ∈ run.parsed, ReadsReceived content (Asked run.requests) image
  final : ∀ image, run.result = .ok (some image) → image ∈ run.parsed

/-- What an image with the header goes through stays within the limits. -/
theorem limited_stages {identity : ElfFileId} {image : ElfImage}
    (h : ImageOf content received image) (hheader : image.Covers 0 64) :
    Limited content received (runStages (readMappedFileRanges identity content) image
      [ElfImage.tables, ElfImage.names, ElfImage.sections]) := by
  let tableNeeded (lo hi : ℕ) : Prop := ∃ wide table, TableOf content wide table ∧
    lo = table.1.toNat ∧ hi = table.1.toNat + table.2.2.1.toNat * table.2.1.toNat
  let namesNeeded (lo hi : ℕ) : Prop := ∃ wide table, TableOf content wide table ∧
    (entryOf content wide table table.2.2.2.toNat).2.2.2 ≠ 0 ∧
    lo = (entryOf content wide table table.2.2.2.toNat).2.2.1.toNat ∧
    hi = (entryOf content wide table table.2.2.2.toNat).2.2.1.toNat +
      (entryOf content wide table table.2.2.2.toNat).2.2.2.toNat
  have htables := (yields_tables h hheader).mono fun out hout =>
    show Selected content out ∧ ∀ lo hi, tableNeeded lo hi → Provided image out lo hi from
      ⟨hout.1, fun lo hi ⟨wide, table, ht, hlo, hhi⟩ => hlo ▸ hhi ▸ hout.2 wide table ht⟩
  refine limited_runStages_cons identity h htables fun _ image h hkept hneeded => ?_
  have htable : HasTable content image :=
    ⟨hkept _ _ hheader, fun wide table ht => hneeded _ _ ⟨wide, table, ht, rfl, rfl⟩⟩
  have hnames := (yields_names h htable).mono fun out hout =>
    show Selected content out ∧ ∀ lo hi, namesNeeded lo hi → Provided image out lo hi from
      ⟨hout.1, fun lo hi ⟨wide, table, ht, hne, hlo, hhi⟩ => hlo ▸ hhi ▸ hout.2 wide table ht hne⟩
  refine limited_runStages_cons identity h hnames fun _ image h hkept hneeded => ?_
  have htable : HasTable content image :=
    ⟨hkept _ _ htable.header, fun wide table ht => hkept _ _ (htable.table wide table ht)⟩
  have hsections := (yields_sections h htable fun wide table ht hne =>
      hneeded _ _ ⟨wide, table, ht, hne, rfl, rfl⟩).mono fun out hout =>
    show Selected content out ∧ ∀ lo hi, False → Provided image out lo hi from
      ⟨hout, fun _ _ h => h.elim⟩
  exact limited_runStages_cons identity h hsections fun _ image h _ _ =>
    limited_runStages_nil identity h

/-- An acquisition that ends behind the request for the header. -/
theorem withinLimits_header (identity : ElfFileId) (id : ProcessId) (mappingStart : UInt64)
    {result : Checked (Option ElfImage)}
    (h : Yields Failure.Harmless result fun found => found = none) :
    WithinLimits identity content id mappingStart ⟨[headerRanges], [], result⟩ := by
  have hempty {P : List FileRange → Prop} : ∀ ranges ∈ [headerRanges].tail, P ranges :=
    fun ranges hranges => absurd hranges List.not_mem_nil
  refine ⟨fun failure hfailure => ?_, hempty, hempty, fun offset length hmissing => ?_, ?_, ?_⟩
  · exact (h.allowed_of_eq hfailure).1
  · exact (h.allowed_of_eq hmissing).2 offset length rfl
  · exact fun image himage => absurd himage List.not_mem_nil
  · exact fun image himage => absurd (h.of_eq himage) (Option.some_ne_none image)

/-- An acquisition whose stages stay within the limits. -/
theorem Limited.withinLimits (identity : ElfFileId) (id : ProcessId) (mappingStart : UInt64)
    {run : Acquisition} (hfits : content.length ≤ maxFileSize)
    (h : Limited content (Asked [headerRanges]) run) :
    WithinLimits identity content id mappingStart
      { run with requests := headerRanges :: run.requests } where
  noPanic _ hfailure := (h.result.allowed_of_eq hfailure).1
  sent ranges hranges := encode_mappedElf id mappingStart (h.requests ranges hranges)
  accepted ranges hranges := by
    have hacceptable := h.requests ranges hranges
    exact ⟨hacceptable.count, hacceptable.selected.inFile, hacceptable.selected.total,
      readMappedFileRanges_of_acceptable identity hfits hacceptable⟩
  present offset length hmissing := (h.result.allowed_of_eq hmissing).2 offset length rfl
  parsed image himage := by
    refine ((h.parsed image himage).mono fun x hx => ?_).readsReceived
    rcases hx with hx | hx
    · exact hx.append_left run.requests
    · exact hx.append_right [headerRanges]
  final image himage := h.result.of_eq himage image rfl

/-- The acquisition of a file whose helper answers from one content. -/
theorem acquireMappedElfImage_withinLimits (dev ino : UInt64) (content : List UInt8)
    (mtime mtimeNsec : Int64) (known : Option ElfFileId) (id : ProcessId) (mappingStart : UInt64) :
    WithinLimits (fileIdentity dev ino content mtime mtimeNsec) content id mappingStart
      (acquireMappedElfImage
        (readMappedFileRanges (fileIdentity dev ino content mtime mtimeNsec) content) known) := by
  generalize hidentity : fileIdentity dev ino content mtime mtimeNsec = identity
  unfold acquireMappedElfImage
  by_cases hfits : content.length ≤ maxFileSize
  · by_cases hlong : 64 ≤ content.length
    · have hheader : Acceptable content headerRanges :=
        ⟨by decide, List.forall_mem_singleton.mpr hlong, by decide⟩
      let header : MappedFileData := ⟨identity, headerRanges.map (readChunk content)⟩
      have hserved : readMappedFileRanges identity content headerRanges = .ok (some header) :=
        readMappedFileRanges_of_acceptable identity hfits hheader
      rw [hserved]
      dsimp only
      split
      · exact withinLimits_header identity id mappingStart (Yields.ok rfl)
      have hslice : IsSlice content (Asked [headerRanges]) (readChunk content ⟨0, 64⟩) ∧
          (readChunk content ⟨0, 64⟩).Spans 0 64 :=
        isSlice_readChunk hlong fun x hlo hhi =>
          ⟨_, List.mem_cons_self, _, List.mem_cons_self, hlo, hhi⟩
      have hdata : ∀ c ∈ header.chunks, IsSlice content (Asked [headerRanges]) c :=
        List.forall_mem_singleton.mpr hslice.1
      have hempty : ImageOf content (Asked [headerRanges]) ⟨identity, []⟩ := by
        refine ⟨hfits, ?_, fun c hc => absurd hc List.not_mem_nil⟩
        have hlt := maxFileSize_lt
        rw [← hidentity]
        exact UInt64.toNat_ofNat_of_lt' (show content.length < 2 ^ 64 by omega)
      have hnew : Yields Failure.Harmless (ElfImage.new header) fun image =>
          ImageOf content (Asked [headerRanges]) image ∧ image.Covers 0 64 := by
        refine (yields_ensure _ _).bind fun _ _ => ?_
        refine (yields_extend hempty hdata).mono fun image h => ?_
        exact ⟨h.1, h.2.2.1 _ List.mem_cons_self 0 64 hslice.2⟩
      cases himage : ElfImage.new header with
      | error failure =>
        exact withinLimits_header identity id mappingStart
          (Yields.error (hnew.allowed_of_eq himage))
      | ok image =>
        obtain ⟨h, hcovers⟩ := hnew.of_eq himage
        exact (limited_stages h hcovers).withinLimits identity id mappingStart hfits
    · -- the header is not in the file
      have hrefused : ∃ message, readMappedFileRanges identity content headerRanges =
          .error message := by
        have hcheck : headerRanges.foldlM (checkRange content.length) 0 =
            .error "mapped file range out of bounds" := by
          have hbehind : content.length < (0 : UInt64).toNat + (64 : UInt64).toNat :=
            Nat.lt_of_not_le hlong
          rw [headerRanges, List.foldlM_cons, checkRange]
          dsimp only
          rw [if_pos hbehind]
          rfl
        refine ⟨"mapped file range out of bounds", ?_⟩
        rw [readMappedFileRanges, if_neg (Nat.not_lt.mpr hfits), if_neg (by decide), hcheck]
      obtain ⟨message, hmessage⟩ := hrefused
      rw [hmessage]
      exact withinLimits_header identity id mappingStart
        (Yields.error (Failure.harmless_error message))
  · have hnone : readMappedFileRanges identity content headerRanges = .ok none := by
      rw [readMappedFileRanges, if_pos (Nat.lt_of_not_le hfits)]
    rw [hnone]
    exact withinLimits_header identity id mappingStart (Yields.ok rfl)

end Procinsh
