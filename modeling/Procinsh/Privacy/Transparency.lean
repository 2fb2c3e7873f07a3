import Procinsh.Privacy.Masks
import Procinsh.Privacy.Scans

/-!
# The cache of masked texts

The cache holds lists of strings and their masked forms as texts that are joined with NUL, which
keeps the lists apart as long as no scanned string has NUL.  Then a scan returns `maskedItems`,
whatever is cached, and a value is scrubbed to `masked`, in which every string is replaced by its own
masked form.

A string of a local program has no NUL, but a string that an agent sent may have: such a string is cut
off at its NUL, and what is cached for it is taken for the masked form of the strings between its NULs.
-/

namespace Procinsh.Privacy

open Masking (Span Lawful spans)
open Json (asString?)

variable (self : Privacy)

/-- A value of a field, in which every string is replaced by its own masked form. -/
def masked (field : Option String) (value : Json) : Json :=
  self.scrubWith self.maskedItems field value

/-- The detector reports hits in order, apart and within every text. -/
def LawfulEngine : Prop := ∀ bytes, Lawful (self.find bytes) bytes.length

/-- Values that are scrubbed one after the other come out as with an empty cache, in the same shape,
and with every string replaced by its own masked form. -/
def Transparent (values : List Json) : Prop :=
  ∃ results cache, self.scrubAll .empty values = some (results, cache) ∧
    List.Forall₂ (fun value result =>
      (∃ cache', self.scrub .empty none value = some (result, cache')) ∧
        shape result = shape value ∧ result = self.masked none value) values results

/-- No string that is scanned for a value has NUL. -/
def NulFree (value : Json) : Prop :=
  ∀ items ∈ scans none value, ∀ text ∈ items, '\x00' ∉ text.toList

/-! ### Without NUL -/

/-- Every cached text is the masked form of a list of strings without NUL, under that list. -/
def Cached (cache : Cache) : Prop :=
  ∀ key text, cache.get? key = some text → ∃ items, items ≠ [] ∧
    (∀ item ∈ items, '\x00' ∉ item.toList) ∧ key = join '\x00' items ∧
    text = join '\x00' (self.maskedItems items)

variable {self}

theorem cached_empty : self.Cached .empty := by
  intro key text hget
  rw [OrderedMap.get?_empty] at hget
  cases hget

/-- What is scanned may be cached, and the cache cleared before. -/
theorem Cached.set {cache : Cache} (h : self.Cached cache) {items : List String} (hne : items ≠ [])
    (hnul : ∀ item ∈ items, '\x00' ∉ item.toList) :
    self.Cached ((if cacheLimit ≤ cache.entries.length then .empty else cache).set
      (join '\x00' items) (join '\x00' (self.maskedItems items))) := by
  intro key text hget
  by_cases hkey : key = join '\x00' items
  · rw [hkey, OrderedMap.get?_set_self] at hget
    exact ⟨items, hne, hnul, hkey, (Option.some.inj hget).symm⟩
  · rw [OrderedMap.get?_set_ne _ hkey] at hget
    split at hget
    · exact cached_empty key text hget
    · exact h key text hget

variable (self) in
/-- A cached list is taken from the cache. -/
theorem scan_of_get?_eq_some {cache : Cache} {items : List String} {text : String}
    (hget : cache.get? (join '\x00' items) = some text) :
    self.scan cache items = some (split '\x00' text, cache) := by
  unfold scan
  dsimp only
  rw [hget]

/-- Strings without NUL are masked, whatever is cached. -/
theorem scansAs_maskedItems (h : self.LawfulEngine) {items : List String} (hne : items ≠ [])
    (hnul : ∀ item ∈ items, '\x00' ∉ item.toList) :
    ScansAs self self.maskedItems self.Cached items := by
  intro cache hcached
  cases hget : cache.get? (join '\x00' items) with
  | none =>
    have hscan := scan_of_get?_eq_none (h _) hget
    rw [split_join_maskedItems hne hnul] at hscan
    exact ⟨_, hscan, hcached.set hne hnul⟩
  | some text =>
    obtain ⟨items', hne', hnul', hkey, htext⟩ := hcached _ _ hget
    -- the key is of one list only
    have hitems : items = items' := by
      rw [← split_join hne hnul, hkey, split_join hne' hnul']
    subst hitems
    have hscan := scan_of_get?_eq_some self hget
    rw [htext, split_join_maskedItems hne hnul] at hscan
    exact ⟨cache, hscan, hcached⟩

theorem maskedItems_singleton_ne_nil (text : String) : self.maskedItems [text] ≠ [] := by
  rw [← List.length_pos_iff, length_maskedItems]
  exact Nat.one_pos

/-- Values without NUL are scrubbed without regard to what is cached. -/
theorem transparent_of_nulFree (h : self.LawfulEngine) {values : List Json}
    (hnul : ∀ value ∈ values, NulFree value) : self.Transparent values := by
  have hscans : ∀ value ∈ values, ∀ items ∈ scans none value,
      ScansAs self self.maskedItems self.Cached items := fun value hvalue items hitems =>
    scansAs_maskedItems h (ne_nil_of_mem_scans none value items hitems)
      (hnul value hvalue items hitems)
  obtain ⟨cache, hall, -⟩ := scrubAll_eq maskedItems_singleton_ne_nil hscans cached_empty
  refine ⟨_, cache, hall, ?_⟩
  rw [List.forall₂_map_right_iff, List.forall₂_same]
  intro value hvalue
  obtain ⟨cache', hscrub, -⟩ := scrub_eq maskedItems_singleton_ne_nil none value
    (hscans value hvalue) .empty cached_empty
  exact ⟨⟨cache', hscrub⟩, shape_scrubWith none value, rfl⟩

/-! ### With NUL -/

/-- A detector that finds nothing. -/
def quiet : Privacy where
  find _ := []
  sha256 _ := .replicate 32 0
  key := .replicate 32 0

theorem quiet_lawfulEngine : quiet.LawfulEngine := fun bytes => Lawful.nil bytes.length

theorem maskedItems_quiet : quiet.maskedItems = id := by
  funext items
  have hpart (bytes : List UInt8) (part : Span) :
      quiet.maskPart bytes (quiet.find bytes) part = fromUtf8Lossy (part.slice bytes) := by
    have hpieces : Masking.pieces (quiet.find bytes) part = [.copied part] :=
      Masking.pieces_nil part
    rw [maskPart, hpieces, List.flatMap_singleton, maskPiece, fromUtf8Lossy]
  have hslices := (spans_join_space items).2
  unfold maskedItems
  calc (spans 0 (items.map asBytes)).map _
      = ((spans 0 (items.map asBytes)).map fun part =>
          part.slice (asBytes (join ' ' items))).map fromUtf8Lossy := by
        rw [List.map_map]
        exact List.map_congr_left fun part _ => hpart _ part
    _ = items.map (fromUtf8Lossy ∘ asBytes) := by rw [hslices, List.map_map]
    _ = items.map id := List.map_congr_left fun item _ => fromUtf8Lossy_asBytes item
    _ = items := List.map_id items

/-- Every cached text is the text it is cached for. -/
def CachedAsIs (cache : Cache) : Prop := ∀ key text, cache.get? key = some text → text = key

theorem cachedAsIs_empty : CachedAsIs .empty := by
  intro key text hget
  rw [OrderedMap.get?_empty] at hget
  cases hget

/-- Splitting at NUL what was joined. -/
def splitAtNul (items : List String) : List String := split '\x00' (join '\x00' items)

/-- Where nothing is found, a scan joins the strings with NUL and splits them again. -/
theorem scansAs_splitAtNul (items : List String) :
    ScansAs quiet splitAtNul CachedAsIs items := by
  intro cache hcached
  cases hget : cache.get? (join '\x00' items) with
  | none =>
    have hscan := scan_of_get?_eq_none (quiet_lawfulEngine _) hget
    rw [maskedItems_quiet] at hscan
    refine ⟨_, hscan, ?_⟩
    intro key text hget'
    by_cases hkey : key = join '\x00' items
    · rw [hkey, OrderedMap.get?_set_self] at hget'
      rw [hkey, ← Option.some.inj hget']
      rfl
    · rw [OrderedMap.get?_set_ne _ hkey] at hget'
      split at hget'
      · exact cachedAsIs_empty key text hget'
      · exact hcached key text hget'
  | some text =>
    have hscan := scan_of_get?_eq_some quiet hget
    rw [hcached _ _ hget] at hscan
    exact ⟨cache, hscan, hcached⟩

/-- Joined strings are split at the separators between them and at those in them. -/
theorem split_join_eq_flatMap (sep : Char) {items : List String} (hne : items ≠ []) :
    split sep (join sep items) = items.flatMap (split sep) := by
  induction items with
  | nil => exact absurd rfl hne
  | cons item items ih =>
    cases items with
    | nil =>
      have hjoin : join sep [item] = item := by
        unfold join
        rw [List.map_singleton, List.intercalate_singleton, String.ofList_toList]
      rw [hjoin, List.flatMap_singleton]
    | cons next items =>
      have hjoin : (join sep (item :: next :: items)).toList =
          item.toList ++ sep :: (join sep (next :: items)).toList := by
        unfold join
        rw [String.toList_ofList, String.toList_ofList]
        simp only [List.map_cons, List.intercalate_cons_cons, List.append_assoc,
          List.singleton_append]
      have hsplit : split sep (join sep (item :: next :: items)) =
          split sep item ++ split sep (join sep (next :: items)) := by
        unfold split
        rw [hjoin, List.splitOn_append_cons_self, List.map_append]
      rw [hsplit, ih (List.cons_ne_nil _ _)]
      exact (List.flatMap_cons ..).symm

/-- A string that comes first when it is split has no separator. -/
theorem notMem_of_split {sep : Char} {text : String} {rest : List String}
    (h : split sep text = text :: rest) : sep ∉ text.toList ∧ rest = [] := by
  have hsep : sep ∉ text.toList := by
    intro hmem
    obtain ⟨before, behind, hsplit, hbefore⟩ := List.eq_append_cons_of_mem hmem
    unfold split at h
    rw [hsplit, List.splitOn_append_cons_self_of_not_mem hbefore, List.map_cons] at h
    have hfirst : before = text.toList := by
      rw [← (List.cons.inj h).1, String.toList_ofList]
    rw [← hfirst] at hmem
    exact hbefore hmem
  refine ⟨hsep, ?_⟩
  unfold split at h
  rw [List.splitOn_eq_singleton hsep, List.map_singleton] at h
  exact (List.cons.inj h).2.symm

theorem replaceItems_self (texts : List String) :
    replaceItems (texts.map Json.string) texts = texts.map Json.string := by
  induction texts with
  | nil => rfl
  | cons text texts ih => rw [List.map_cons, replaceItems, ih]

/-- Strings that are in their places again when they were split have no separator. -/
theorem notMem_of_replaceItems {sep : Char} {texts : List String}
    (h : replaceItems (texts.map Json.string) (texts.flatMap (split sep)) =
      texts.map Json.string) : ∀ text ∈ texts, sep ∉ text.toList := by
  induction texts with
  | nil => exact fun _ h => absurd h List.not_mem_nil
  | cons text texts ih =>
    have hne : split sep text ≠ [] := mt List.map_eq_nil_iff.mp (List.splitOn_ne_nil _ _)
    obtain ⟨first, rest, hsplit⟩ := List.exists_cons_of_ne_nil hne
    rw [List.flatMap_cons, hsplit, List.cons_append, List.map_cons, replaceItems] at h
    obtain ⟨hfirst, hitems⟩ := List.cons.inj h
    rw [Json.string.inj hfirst] at hsplit
    obtain ⟨hsep, hrest⟩ := notMem_of_split hsplit
    rw [hrest, List.nil_append] at hitems
    exact List.forall_mem_cons.mpr ⟨hsep, ih hitems⟩

theorem splitAtNul_ne_nil (items : List String) : splitAtNul items ≠ [] :=
  mt List.map_eq_nil_iff.mp (List.splitOn_ne_nil _ _)

/-- A string that comes out as it is has no NUL. -/
theorem notMem_of_splitAtNul_singleton {text : String}
    (h : (splitAtNul [text]).headD text = text) : '\x00' ∉ text.toList := by
  obtain ⟨first, rest, hsplit⟩ := List.exists_cons_of_ne_nil (splitAtNul_ne_nil [text])
  have hfirst : first = text := by
    rw [hsplit] at h
    exact h
  rw [splitAtNul, split_join_eq_flatMap _ (List.cons_ne_nil _ _), List.flatMap_singleton,
    hfirst] at hsplit
  exact (notMem_of_split hsplit).1

/-- Strings that come out in their places as they are have no NUL. -/
theorem notMem_of_splitAtNul {texts : List String} (hne : texts ≠ [])
    (h : replaceItems (texts.map Json.string) (splitAtNul texts) =
      replaceItems (texts.map Json.string) texts) : ∀ text ∈ texts, '\x00' ∉ text.toList := by
  rw [splitAtNul, split_join_eq_flatMap _ hne, replaceItems_self] at h
  exact notMem_of_replaceItems h

mutual

/-- A value that comes out as it is masked, where nothing is found, has no NUL. -/
theorem nulFree_of_scrubWith_eq (field : Option String) :
    ∀ value : Json, quiet.scrubWith splitAtNul field value = quiet.scrubWith id field value →
      ∀ items ∈ scans field value, ∀ text ∈ items, '\x00' ∉ text.toList
  | .string text, h, items, hitems => by
    rw [scans] at hitems
    split at hitems
    · cases hitems
    · next hscanned =>
      rw [not_or] at hscanned
      rw [List.mem_singleton.mp hitems]
      rw [scrubWith, scrubWith, scrubStringWith, scrubStringWith, if_neg hscanned.1,
        if_neg hscanned.1, if_neg hscanned.2, if_neg hscanned.2] at h
      exact List.forall_mem_singleton.mpr (notMem_of_splitAtNul_singleton (Json.string.inj h))
  | .array values, h, items, hitems => by
    rw [scans] at hitems
    rw [scrubWith, scrubWith] at h
    by_cases htogether : isScannedTogether field values = true
    · obtain ⟨-, hstrings⟩ := map_string_of_isScannedTogether htogether
      rw [if_pos htogether] at hitems
      rw [if_pos htogether, if_pos htogether] at h
      rw [List.mem_singleton.mp hitems]
      have hne : values.filterMap asString? ≠ [] :=
        ne_nil_of_mem_scans field (.array values) _ <| by
          rw [scans, if_pos htogether]
          exact List.mem_cons_self
      have hsame := Json.array.inj h
      generalize values.filterMap asString? = texts at hstrings hne hsame
      subst hstrings
      exact notMem_of_splitAtNul hne hsame
    · rw [if_neg htogether] at hitems
      rw [if_neg htogether, if_neg htogether] at h
      exact nulFree_of_scrubItemsWith_eq field values (Json.array.inj h) items hitems
  | .object fields, h, items, hitems => by
    rw [scans] at hitems
    rw [scrubWith, scrubWith] at h
    exact nulFree_of_scrubFieldsWith_eq fields (Json.object.inj h) items hitems
  | .null, _, items, hitems => by
    rw [scans] at hitems
    cases hitems
  | .bool _, _, items, hitems => by
    rw [scans] at hitems
    cases hitems
  | .number _, _, items, hitems => by
    rw [scans] at hitems
    cases hitems

theorem nulFree_of_scrubItemsWith_eq (field : Option String) :
    ∀ values : List Json,
      quiet.scrubItemsWith splitAtNul field values = quiet.scrubItemsWith id field values →
      ∀ items ∈ scansItems field values, ∀ text ∈ items, '\x00' ∉ text.toList
  | [], _, items, hitems => by
    rw [scansItems] at hitems
    cases hitems
  | value :: values, h, items, hitems => by
    rw [scrubItemsWith, scrubItemsWith] at h
    obtain ⟨hvalue, hvalues⟩ := List.cons.inj h
    rw [scansItems, List.mem_append] at hitems
    rcases hitems with hitems | hitems
    · exact nulFree_of_scrubWith_eq field value hvalue items hitems
    · exact nulFree_of_scrubItemsWith_eq field values hvalues items hitems

theorem nulFree_of_scrubFieldsWith_eq :
    ∀ fields : List (String × Json),
      quiet.scrubFieldsWith splitAtNul fields = quiet.scrubFieldsWith id fields →
      ∀ items ∈ scansFields fields, ∀ text ∈ items, '\x00' ∉ text.toList
  | [], _, items, hitems => by
    rw [scansFields] at hitems
    cases hitems
  | (name, value) :: fields, h, items, hitems => by
    rw [scrubFieldsWith, scrubFieldsWith] at h
    obtain ⟨hfield, hfields⟩ := List.cons.inj h
    rw [scansFields, List.mem_append] at hitems
    rcases hitems with hitems | hitems
    · exact nulFree_of_scrubWith_eq (some name) value (Prod.mk.inj hfield).2 items hitems
    · exact nulFree_of_scrubFieldsWith_eq fields hfields items hitems

end

/-- Where nothing is found, only values without NUL come out as with an empty cache. -/
theorem nulFree_of_transparent {values : List Json} (h : quiet.Transparent values) :
    ∀ value ∈ values, NulFree value := by
  obtain ⟨results, cache, hall, hresults⟩ := h
  have hscrub : ∃ cache', quiet.scrubAll .empty values =
      some (values.map (quiet.scrubWith splitAtNul none), cache') ∧ CachedAsIs cache' :=
    scrubAll_eq (fun text => splitAtNul_ne_nil [text])
      (fun _ _ items _ => scansAs_splitAtNul items) cachedAsIs_empty
  obtain ⟨cache', hall', -⟩ := hscrub
  rw [hall'] at hall
  obtain rfl := (Prod.mk.inj (Option.some.inj hall)).1
  rw [List.forall₂_map_right_iff, List.forall₂_same] at hresults
  intro value hvalue items hitems
  have hmasked := (hresults value hvalue).2.2
  unfold masked at hmasked
  rw [maskedItems_quiet] at hmasked
  exact nulFree_of_scrubWith_eq none value hmasked items hitems

/-- Values come out as with an empty cache, in the same shape and with every string replaced by its
own masked form, whatever the detector finds, if and only if no string that is scanned has NUL. -/
theorem transparent_iff (values : List Json) :
    (∀ self : Privacy, self.LawfulEngine → self.Transparent values) ↔
      ∀ value ∈ values, NulFree value := by
  constructor
  · intro h
    exact nulFree_of_transparent (h quiet quiet_lawfulEngine)
  · intro hnul self hself
    exact transparent_of_nulFree hself hnul

/-- A detector that finds the password behind `-p`. -/
def passwordPrivacy : Privacy where
  find bytes := if bytes = asBytes "-p hunter2" then [⟨3, 10⟩] else []
  sha256 _ := .replicate 32 7
  key := .replicate 32 0

/-- A string of an agent with NUL, and arguments. -/
def agentReplies : List Json :=
  [.string "-p\x00hunter2", .array [.string "-p", .string "hunter2"]]

/-- The string is cut off at NUL, and then the password is not masked, which it is with an empty
cache. -/
theorem not_transparent_agentReplies : passwordPrivacy.LawfulEngine ∧
    (passwordPrivacy.scrubAll .empty agentReplies).map Prod.fst =
      some [.string "-p", .array [.string "-p", .string "hunter2"]] ∧
    (passwordPrivacy.scrub .empty none (.array [.string "-p", .string "hunter2"])).map Prod.fst =
      some (.array [.string "-p", .string "░07070707░"]) ∧
    ¬passwordPrivacy.Transparent agentReplies := by
  have hlawful : passwordPrivacy.LawfulEngine := by
    intro bytes
    unfold passwordPrivacy
    dsimp only
    by_cases hbytes : bytes = asBytes "-p hunter2"
    · have hlength : (asBytes "-p hunter2").length = 10 := by decide +kernel
      rw [if_pos hbytes, hbytes, hlength]
      exact ⟨by decide, by decide, by decide⟩
    · rw [if_neg hbytes]
      exact Lawful.nil _
  have hrun : (passwordPrivacy.scrubAll .empty agentReplies).map Prod.fst =
      some [.string "-p", .array [.string "-p", .string "hunter2"]] := by decide +kernel
  have hempty : (passwordPrivacy.scrub .empty none
      (.array [.string "-p", .string "hunter2"])).map Prod.fst =
      some (.array [.string "-p", .string "░07070707░"]) := by decide +kernel
  refine ⟨hlawful, hrun, hempty, ?_⟩
  rintro ⟨results, cache, hall, hresults⟩
  rw [hall] at hrun
  obtain rfl : results = _ := Option.some.inj hrun
  rw [agentReplies, List.forall₂_cons, List.forall₂_cons] at hresults
  obtain ⟨-, ⟨⟨cache', hscrub⟩, -⟩, -⟩ := hresults
  rw [hscrub] at hempty
  have hresult : Json.array [.string "-p", .string "hunter2"] =
      .array [.string "-p", .string "░07070707░"] := Option.some.inj hempty
  exact absurd hresult (by decide)

end Procinsh.Privacy
