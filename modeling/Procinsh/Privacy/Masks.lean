import Procinsh.Foundation.Lists
import Procinsh.Privacy.Scan

/-!
# What a scan masks

Every string of a scanned list is masked on its own: it is cut into pieces at the hits that meet it,
what is outside of the hits is copied, and the share of each hit is replaced by its pseudonym.
`maskedItems` are the strings with their pieces replaced, and `scan` returns them when the list is
not cached.

A list that is scanned is not empty, and its strings have no NUL: the masked strings are joined with
NUL, repaired as one text, and split again.
-/

namespace Procinsh.Privacy

open Masking (Span Piece Lawful Walk IsMasking pieces piecesFrom spans)

variable (self : Privacy)

/-! ### Joining and splitting -/

/-- Text is read back from its bytes. -/
theorem fromUtf8Lossy_asBytes (s : String) : fromUtf8Lossy (asBytes s) = s := by
  unfold fromUtf8Lossy asBytes
  rw [Utf8.repair_encode, String.ofList_toList]

/-- Strings without the separator are found again between the separators. -/
theorem split_join {sep : Char} {items : List String} (hne : items ≠ [])
    (hsep : ∀ item ∈ items, sep ∉ item.toList) : split sep (join sep items) = items := by
  have hchars : ∀ l ∈ items.map String.toList, sep ∉ l := by
    intro l hl
    obtain ⟨item, hitem, rfl⟩ := List.mem_map.mp hl
    exact hsep item hitem
  have hmap : items.map String.toList ≠ [] := mt List.map_eq_nil_iff.mp hne
  unfold split join
  rw [String.toList_ofList, List.splitOn_intercalate sep hchars hmap, List.map_map]
  exact (List.map_congr_left fun item _ => String.ofList_toList).trans (List.map_id items)

/-- The bytes of a joined text. -/
theorem asBytes_join_space (items : List String) :
    asBytes (join ' ' items) = [0x20].intercalate (items.map asBytes) := by
  have hspace : Utf8.encode [' '] = [0x20] := by decide
  unfold asBytes join
  rw [String.toList_ofList, Utf8.encode_intercalate, hspace, List.map_map]
  rfl

/-- A joined text has no NUL when the strings have none. -/
theorem zero_notMem_asBytes_join {items : List String}
    (hnul : ∀ item ∈ items, '\x00' ∉ item.toList) : 0 ∉ asBytes (join ' ' items) := by
  have hchars : '\x00' ∉ (join ' ' items).toList := by
    unfold join
    rw [String.toList_ofList]
    apply notMem_intercalate (by decide)
    intro part hpart
    obtain ⟨item, hitem, rfl⟩ := List.mem_map.mp hpart
    exact hnul item hitem
  exact fun h => hchars (Utf8.nul_mem_of_zero_mem_encode h)

/-! ### Pieces -/

/-- What the masked text has for a piece. -/
def maskPiece (bytes : List UInt8) : Piece → List Char
  | .copied s => Utf8.repair (s.slice bytes)
  | .hidden s => (self.pseudonym (s.slice bytes)).toList

/-- The bytes the masked text has for a piece. -/
def maskPieceBytes (bytes : List UInt8) : Piece → List UInt8
  | .copied s => s.slice bytes
  | .hidden s => asBytes (self.pseudonym (s.slice bytes))

/-- A part of a text, masked. -/
def maskPart (bytes : List UInt8) (hits : List Span) (part : Span) : String :=
  String.ofList ((pieces hits part).flatMap (self.maskPiece bytes))

/-- The strings of a list, each with its pieces masked. -/
def maskedItems (items : List String) : List String :=
  let bytes := asBytes (join ' ' items)
  (spans 0 (items.map asBytes)).map (self.maskPart bytes (self.find bytes))

@[simp] theorem length_maskedItems (items : List String) :
    (self.maskedItems items).length = items.length := by
  unfold maskedItems
  rw [List.length_map, Masking.length_spans, List.length_map]

variable {self}

/-- The loop over the hits of an item goes from piece to piece, within the text. -/
theorem maskItem_eq {bytes : List UInt8} {part : Span} (hstop : part.stop ≤ bytes.length)
    {done : ℕ} {hits : List Span} (h : Walk part done hits) :
    self.maskItem bytes part.start part.stop done hits =
      some ((piecesFrom part done hits).flatMap (self.maskPieceBytes bytes)) := by
  induction hits generalizing done with
  | nil =>
    have hslice : slice bytes done part.stop = some ((Span.mk done part.stop).slice bytes) :=
      if_pos ⟨h.le_stop, hstop⟩
    rw [maskItem, hslice, piecesFrom, List.flatMap_singleton, maskPieceBytes]
  | cons hit hits ih =>
    obtain ⟨hfrom, hshare, hnext⟩ := h.next
    have hto : (hit.share part).stop ≤ bytes.length := hnext.le_stop.trans hstop
    have hcopied : slice bytes done (hit.share part).start =
        some ((Span.mk done (hit.share part).start).slice bytes) :=
      if_pos ⟨hfrom, hshare.trans hto⟩
    have hhidden : slice bytes (hit.share part).start (hit.share part).stop =
        some ((hit.share part).slice bytes) := if_pos ⟨hshare, hto⟩
    have hstep : self.maskItem bytes part.start part.stop done (hit :: hits) = do
        let copied ← slice bytes done (hit.share part).start
        let hidden ← slice bytes (hit.share part).start (hit.share part).stop
        let rest ← self.maskItem bytes part.start part.stop (hit.share part).stop hits
        return copied ++ asBytes (self.pseudonym hidden) ++ rest := rfl
    rw [hstep, hcopied, hhidden, ih hnext, piecesFrom, List.flatMap_cons, List.flatMap_cons,
      ← List.append_assoc]
    rfl

/-- A pseudonym is text, which begins a character. -/
theorem isCut_pseudonym_append (value later : List UInt8) :
    Utf8.IsCut (asBytes (self.pseudonym value) ++ later) := by
  refine Utf8.isCut_encode_append ?_ later
  unfold pseudonym
  rw [String.toList_ofList]
  exact List.cons_ne_nil _ _

/-- The pieces are repaired on their own. -/
theorem repair_piecesFrom (bytes : List UInt8) (part : Span) (done : ℕ) (hits : List Span) :
    Utf8.repair ((piecesFrom part done hits).flatMap (self.maskPieceBytes bytes)) =
      (piecesFrom part done hits).flatMap (self.maskPiece bytes) := by
  induction hits generalizing done with
  | nil =>
    rw [piecesFrom, List.flatMap_singleton, List.flatMap_singleton, maskPieceBytes, maskPiece]
  | cons hit hits ih =>
    rw [piecesFrom, List.flatMap_cons, List.flatMap_cons, List.flatMap_cons, List.flatMap_cons,
      maskPieceBytes, maskPieceBytes, Utf8.repair_append (isCut_pseudonym_append _ _), asBytes,
      Utf8.repair_encode_append, ih, maskPiece, maskPiece]

/-! ### NUL -/

/-- A pseudonym has no NUL. -/
theorem nul_notMem_pseudonym (value : List UInt8) : '\x00' ∉ (self.pseudonym value).toList := by
  have hdigit : ∀ n < 16, '\x00' ≠ Nat.digitChar n := by decide
  unfold pseudonym
  rw [String.toList_ofList]
  intro h
  rcases List.mem_cons.mp h with h | h
  · exact absurd h (by decide)
  · rcases List.mem_append.mp h with h | h
    · obtain ⟨b, -, hb⟩ := List.mem_flatMap.mp h
      have hlt : b.toNat < 256 := b.toNat_lt
      unfold hexByte at hb
      rcases List.mem_cons.mp hb with hb | hb
      · exact hdigit (b.toNat / 16) (by omega) hb
      · exact hdigit (b.toNat % 16) (by omega) (List.mem_singleton.mp hb)
    · exact absurd (List.mem_singleton.mp h) (by decide)

/-- A masked part has no NUL when the text has none. -/
theorem nul_notMem_maskPart {bytes : List UInt8} (hbytes : 0 ∉ bytes) (hits : List Span)
    (part : Span) : '\x00' ∉ (self.maskPart bytes hits part).toList := by
  unfold maskPart
  rw [String.toList_ofList]
  intro h
  obtain ⟨piece, -, hpiece⟩ := List.mem_flatMap.mp h
  cases piece with
  | copied s =>
    have hslice : 0 ∈ s.slice bytes := Utf8.zero_mem_of_nul_mem_repair hpiece
    exact hbytes (List.mem_of_mem_drop (List.mem_of_mem_take hslice))
  | hidden s => exact nul_notMem_pseudonym _ hpiece

/-- Masked strings have no NUL when the strings have none. -/
theorem nul_notMem_maskedItems {items : List String}
    (hnul : ∀ item ∈ items, '\x00' ∉ item.toList) :
    ∀ masked ∈ self.maskedItems items, '\x00' ∉ masked.toList := by
  intro masked hmasked
  obtain ⟨part, -, rfl⟩ := List.mem_map.mp hmasked
  exact nul_notMem_maskPart (zero_notMem_asBytes_join hnul) _ _

/-! ### The loop over the items -/

/-- The bytes of a masked part. -/
def maskPartBytes (self : Privacy) (bytes : List UInt8) (hits : List Span) (part : Span) :
    List UInt8 :=
  (pieces hits part).flatMap (self.maskPieceBytes bytes)

theorem repair_maskPartBytes (bytes : List UInt8) (hits : List Span) (part : Span) :
    Utf8.repair (self.maskPartBytes bytes hits part) =
      (self.maskPart bytes hits part).toList := by
  unfold maskPart
  rw [String.toList_ofList]
  exact repair_piecesFrom bytes part part.start _

/-- The first item of the loop, masked, in front of the others. -/
theorem maskItems_cons {bytes rest : List UInt8} {found : List Span}
    (h : Lawful found bytes.length) {index start : ℕ} {item : String} {items : List String}
    (hstop : start + (asBytes item).length ≤ bytes.length)
    (hrest : self.maskItems bytes found (index + 1) (start + (asBytes item).length + 1) items =
      some rest) :
    self.maskItems bytes found index start (item :: items) =
      some ((if 0 < index then [0] else []) ++
        self.maskPartBytes bytes found ⟨start, start + (asBytes item).length⟩ ++ rest) := by
  have hwalk : Walk ⟨start, start + (asBytes item).length⟩ start (found.filter fun hit =>
      hit.Meets ⟨start, start + (asBytes item).length⟩) :=
    Walk.of_lawful h (Nat.le_add_right _ _)
  have hitem : self.maskItem bytes start (start + (asBytes item).length) start
      (found.filter fun hit =>
        hit.start < start + (asBytes item).length ∧ start < hit.stop) =
      some (self.maskPartBytes bytes found ⟨start, start + (asBytes item).length⟩) :=
    maskItem_eq hstop hwalk
  rw [maskItems, hitem, hrest]
  rfl

/-- The items behind the first, each with NUL in front. -/
theorem maskItems_succ {bytes : List UInt8} {found : List Span} (h : Lawful found bytes.length)
    {start : ℕ} {items : List String} (index : ℕ)
    (hstop : ∀ part ∈ spans start (items.map asBytes), part.stop ≤ bytes.length) :
    self.maskItems bytes found (index + 1) start items =
      some (((spans start (items.map asBytes)).map (self.maskPartBytes bytes found)).flatMap
        fun masked => 0 :: masked) := by
  induction items generalizing start index with
  | nil => rfl
  | cons item items ih =>
    rw [List.map_cons, spans] at hstop
    obtain ⟨hfirst, hrest⟩ := List.forall_mem_cons.mp hstop
    rw [maskItems_cons h hfirst (ih (index + 1) hrest), if_pos (Nat.succ_pos index), List.map_cons,
      spans, List.map_cons, List.flatMap_cons, List.singleton_append]

/-- The loop joins the masked items with NUL. -/
theorem maskItems_zero {bytes : List UInt8} {found : List Span} (h : Lawful found bytes.length)
    {items : List String}
    (hstop : ∀ part ∈ spans 0 (items.map asBytes), part.stop ≤ bytes.length) :
    self.maskItems bytes found 0 0 items =
      some ([0].intercalate
        ((spans 0 (items.map asBytes)).map (self.maskPartBytes bytes found))) := by
  cases items with
  | nil => rfl
  | cons item items =>
    rw [List.map_cons, spans] at hstop
    obtain ⟨hfirst, hrest⟩ := List.forall_mem_cons.mp hstop
    rw [maskItems_cons h hfirst (maskItems_succ h 0 hrest), if_neg (Nat.lt_irrefl 0),
      List.nil_append, List.map_cons, spans, List.map_cons, intercalate_cons]

/-- The parts of the scanned text are the strings. -/
theorem spans_join_space (items : List String) :
    (∀ part ∈ spans 0 (items.map asBytes), part.stop ≤ (asBytes (join ' ' items)).length) ∧
      (spans 0 (items.map asBytes)).map (fun part => part.slice (asBytes (join ' ' items))) =
        items.map asBytes := by
  rw [asBytes_join_space]
  exact Masking.spans_intercalate 0x20 [] (items.map asBytes)

/-! ### Scanning -/

/-- The detector reports hits in order, apart and within the text. -/
def IsLawful (self : Privacy) (items : List String) : Prop :=
  Lawful (self.find (asBytes (join ' ' items))) (asBytes (join ' ' items)).length

/-- The masked text is the masked strings, joined with NUL. -/
theorem maskItems_eq_maskedItems {items : List String} (h : self.IsLawful items) :
    ∃ masked, self.maskItems (asBytes (join ' ' items)) (self.find (asBytes (join ' ' items))) 0 0
        items = some masked ∧
      fromUtf8Lossy masked = join '\x00' (self.maskedItems items) := by
  refine ⟨_, maskItems_zero h (spans_join_space items).1, ?_⟩
  have hparts : ∀ part, Utf8.repair (self.maskPartBytes (asBytes (join ' ' items))
      (self.find (asBytes (join ' ' items))) part) =
      (self.maskPart (asBytes (join ' ' items)) (self.find (asBytes (join ' ' items)))
        part).toList := repair_maskPartBytes _ _
  unfold fromUtf8Lossy join maskedItems
  rw [Utf8.repair_intercalate_zero, List.map_map, List.map_map]
  exact congrArg (fun parts => String.ofList (['\x00'].intercalate parts))
    (List.map_congr_left fun part _ => hparts part)

/-- A list that is not cached is masked, and what is returned is cached. -/
theorem scan_of_get?_eq_none {cache : Cache} {items : List String} (h : self.IsLawful items)
    (hget : cache.get? (join '\x00' items) = none) :
    self.scan cache items = some (split '\x00' (join '\x00' (self.maskedItems items)),
      (if cacheLimit ≤ cache.entries.length then .empty else cache).set (join '\x00' items)
        (join '\x00' (self.maskedItems items))) := by
  obtain ⟨masked, hmasked, htext⟩ := maskItems_eq_maskedItems h
  unfold scan
  dsimp only
  rw [hget]
  dsimp only
  rw [hmasked, Option.bind_eq_bind, Option.bind_some, htext]
  rfl

/-- The masked strings are found again in their joined text. -/
theorem split_join_maskedItems {items : List String} (hne : items ≠ [])
    (hnul : ∀ item ∈ items, '\x00' ∉ item.toList) :
    split '\x00' (join '\x00' (self.maskedItems items)) = self.maskedItems items := by
  have hmasked : self.maskedItems items ≠ [] := by
    rw [← List.length_pos_iff, length_maskedItems]
    exact List.length_pos_iff.mpr hne
  exact split_join hmasked (nul_notMem_maskedItems hnul)

variable (self) in
/-- A scan with an empty cache does not leave the text and gives one string for every item: the part
of the text that is the item, in pieces, of which those outside of the hits are repaired as they are
and the share of every hit is replaced by its pseudonym. -/
theorem scan_empty {items : List String} (hne : items ≠ [])
    (hnul : ∀ item ∈ items, '\x00' ∉ item.toList) (h : self.IsLawful items) :
    ∃ results cache, self.scan .empty items = some (results, cache) ∧
      results.length = items.length ∧
      (spans 0 (items.map asBytes)).map (fun part => part.slice (asBytes (join ' ' items))) =
        items.map asBytes ∧
      List.Forall₂ (fun part result => ∃ ps,
          IsMasking (self.find (asBytes (join ' ' items))) part ps ∧
          result.toList = ps.flatMap (self.maskPiece (asBytes (join ' ' items))))
        (spans 0 (items.map asBytes)) results := by
  have hscan := scan_of_get?_eq_none h (OrderedMap.get?_empty _)
  rw [split_join_maskedItems hne hnul] at hscan
  refine ⟨_, _, hscan, length_maskedItems self items, (spans_join_space items).2, ?_⟩
  unfold maskedItems
  rw [List.forall₂_map_right_iff, List.forall₂_same]
  intro part hpart
  refine ⟨_, Masking.isMasking_pieces h (Masking.start_le_stop_of_mem_spans hpart), ?_⟩
  unfold maskPart
  rw [String.toList_ofList]

/-- The arguments of a program, one of which is a password. -/
def sshpassArguments : List String :=
  ["sshpass", "-p", "hunter2secret", "ssh", "alice@workstation-7"]

/-- A detector that finds the password, the user and the host in these arguments. -/
def sshpassPrivacy : Privacy where
  find bytes := if bytes = asBytes (join ' ' sshpassArguments) then
    [⟨11, 24⟩, ⟨29, 34⟩, ⟨35, 48⟩] else []
  sha256 value := .replicate 32 (value.foldl (· + ·) 0)
  key := .replicate 32 7

theorem sshpassPrivacy_isLawful : sshpassPrivacy.IsLawful sshpassArguments := by
  have hfind : sshpassPrivacy.find (asBytes (join ' ' sshpassArguments)) =
      [⟨11, 24⟩, ⟨29, 34⟩, ⟨35, 48⟩] := by
    unfold sshpassPrivacy
    dsimp only
    rw [if_pos rfl]
  have hlength : (asBytes (join ' ' sshpassArguments)).length = 48 := by decide +kernel
  unfold IsLawful
  rw [hfind, hlength]
  exact ⟨by decide, by decide, by decide⟩

theorem scan_sshpassArguments : ∃ results cache,
    sshpassPrivacy.scan .empty sshpassArguments = some (results, cache) ∧
      results.length = sshpassArguments.length ∧
      (spans 0 (sshpassArguments.map asBytes)).map
          (fun part => part.slice (asBytes (join ' ' sshpassArguments))) =
        sshpassArguments.map asBytes ∧
      List.Forall₂ (fun part result => ∃ ps,
          IsMasking (sshpassPrivacy.find (asBytes (join ' ' sshpassArguments))) part ps ∧
          result.toList =
            ps.flatMap (sshpassPrivacy.maskPiece (asBytes (join ' ' sshpassArguments))))
        (spans 0 (sshpassArguments.map asBytes)) results :=
  scan_empty sshpassPrivacy (by decide) (by decide +kernel) sshpassPrivacy_isLawful

/-- An empty list is scanned to one empty string. -/
theorem scan_nil : ∃ results cache, sshpassPrivacy.IsLawful [] ∧
    sshpassPrivacy.scan .empty [] = some (results, cache) ∧
      results.length ≠ ([] : List String).length :=
  ⟨[""], OrderedMap.empty.set "" "", Lawful.nil 0, rfl, by decide⟩

end Procinsh.Privacy
