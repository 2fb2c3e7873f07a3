import Procinsh.Privacy.Scrub

/-!
# The scans of a value

Scrubbing a value scans lists of strings, and what comes out is a function of the value and of what
these scans return: `scrubWith f` is scrubbing with `f` in place of the scans, and `scrub_eq` the rule
that scrubbing does what its scans do and keeps what they keep of the cache.  The shape of a value
does not depend on the scans at all.
-/

namespace Procinsh.Privacy

open Json (asString?)

/-! ### Scrubbing without a cache -/

mutual

/-- The lists of strings that are scanned for a value of a field. -/
def scans (field : Option String) : Json → List (List String)
  | .string text => if text = "" ∨ isWhole field text then [] else [[text]]
  | .array items =>
    if isScannedTogether field items then [items.filterMap asString?] else scansItems field items
  | .object fields => scansFields fields
  | .null => []
  | .bool _ => []
  | .number _ => []

/-- The lists of strings that are scanned for the items of an array of a field. -/
def scansItems (field : Option String) : List Json → List (List String)
  | [] => []
  | item :: items => scans field item ++ scansItems field items

/-- The lists of strings that are scanned for the fields of an object. -/
def scansFields : List (String × Json) → List (List String)
  | [] => []
  | (name, item) :: fields => scans (some name) item ++ scansFields fields

end

variable (self : Privacy) (f : List String → List String)

/-- A string of a field, where `f` masks what is scanned. -/
def scrubStringWith (field : Option String) (text : String) : String :=
  if text = "" then text
  else if isWhole field text then self.pseudonym (asBytes text)
  else (f [text]).headD text

mutual

/-- A value of a field, where `f` masks what is scanned. -/
def scrubWith (field : Option String) : Json → Json
  | .string text => .string (self.scrubStringWith f field text)
  | .array items =>
    if isScannedTogether field items then
      .array (replaceItems items (f (items.filterMap asString?)))
    else .array (scrubItemsWith field items)
  | .object fields => .object (scrubFieldsWith fields)
  | .null => .null
  | .bool b => .bool b
  | .number n => .number n

/-- The items of an array of a field, where `f` masks what is scanned. -/
def scrubItemsWith (field : Option String) : List Json → List Json
  | [] => []
  | item :: items => scrubWith field item :: scrubItemsWith field items

/-- The fields of an object, where `f` masks what is scanned. -/
def scrubFieldsWith : List (String × Json) → List (String × Json)
  | [] => []
  | (name, item) :: fields => (name, scrubWith (some name) item) :: scrubFieldsWith fields

end

/-! ### What is scanned -/

/-- The strings of an array that is scanned are its items. -/
theorem map_string_of_isScannedTogether {field : Option String} {items : List Json}
    (h : isScannedTogether field items = true) :
    1 < items.length ∧ (items.filterMap asString?).map Json.string = items := by
  unfold isScannedTogether at h
  simp only [Bool.and_eq_true, decide_eq_true_eq, List.all_eq_true] at h
  obtain ⟨⟨hlength, -⟩, hstrings⟩ := h
  refine ⟨hlength, ?_⟩
  clear hlength
  induction items with
  | nil => rfl
  | cons item items ih =>
    obtain ⟨hitem, hitems⟩ := List.forall_mem_cons.mp hstrings
    obtain ⟨text, htext⟩ := Option.isSome_iff_exists.mp hitem
    have hjson : item = .string text := by
      cases item with
      | string s => exact congrArg Json.string (Option.some.inj htext)
      | _ => cases htext
    rw [List.filterMap_cons_some htext, List.map_cons, ih hitems, hjson]

mutual

/-- No list that is scanned is empty. -/
theorem ne_nil_of_mem_scans (field : Option String) :
    ∀ value : Json, ∀ items ∈ scans field value, items ≠ []
  | .string text, items, h => by
    rw [scans] at h
    split at h
    · cases h
    · rw [List.mem_singleton.mp h]
      exact List.cons_ne_nil _ _
  | .array values, items, h => by
    rw [scans] at h
    split at h
    · next htogether =>
      obtain ⟨hlength, hstrings⟩ := map_string_of_isScannedTogether htogether
      rintro rfl
      rw [← List.mem_singleton.mp h] at hstrings
      rw [← hstrings] at hlength
      exact absurd hlength (by decide)
    · exact ne_nil_of_mem_scansItems field values items h
  | .object fields, items, h => by
    rw [scans] at h
    exact ne_nil_of_mem_scansFields fields items h
  | .null, items, h => by
    rw [scans] at h
    cases h
  | .bool _, items, h => by
    rw [scans] at h
    cases h
  | .number _, items, h => by
    rw [scans] at h
    cases h

theorem ne_nil_of_mem_scansItems (field : Option String) :
    ∀ values : List Json, ∀ items ∈ scansItems field values, items ≠ []
  | [], items, h => by
    rw [scansItems] at h
    cases h
  | value :: values, items, h => by
    rw [scansItems, List.mem_append] at h
    rcases h with h | h
    · exact ne_nil_of_mem_scans field value items h
    · exact ne_nil_of_mem_scansItems field values items h

theorem ne_nil_of_mem_scansFields :
    ∀ fields : List (String × Json), ∀ items ∈ scansFields fields, items ≠ []
  | [], items, h => by
    rw [scansFields] at h
    cases h
  | (name, value) :: fields, items, h => by
    rw [scansFields, List.mem_append] at h
    rcases h with h | h
    · exact ne_nil_of_mem_scans (some name) value items h
    · exact ne_nil_of_mem_scansFields fields items h

end

/-! ### Scrubbing with a cache -/

section Rule

variable {self f} {I : Cache → Prop}

/-- Scans of a list return what `f` does, and keep an invariant of the cache. -/
def ScansAs (self : Privacy) (f : List String → List String) (I : Cache → Prop)
    (items : List String) : Prop :=
  ∀ cache, I cache → ∃ cache', self.scan cache items = some (f items, cache') ∧ I cache'

theorem scrubString_eq (hf : ∀ text, f [text] ≠ []) {field : Option String} {text : String}
    (h : ∀ items ∈ scans field (.string text), ScansAs self f I items) {cache : Cache}
    (hI : I cache) :
    ∃ cache', self.scrubString cache field text =
      some (self.scrubStringWith f field text, cache') ∧ I cache' := by
  unfold scrubString scrubStringWith
  unfold scans at h
  by_cases hempty : text = ""
  · rw [if_pos hempty, if_pos hempty]
    exact ⟨cache, rfl, hI⟩
  · rw [if_neg hempty, if_neg hempty]
    by_cases hwhole : isWhole field text = true
    · rw [if_pos hwhole, if_pos hwhole]
      exact ⟨cache, rfl, hI⟩
    · rw [if_neg hwhole, if_neg hwhole]
      rw [if_neg (by tauto)] at h
      obtain ⟨cache', hscan, hI'⟩ := h [text] List.mem_cons_self cache hI
      obtain ⟨first, rest, hfirst⟩ := List.exists_cons_of_ne_nil (hf text)
      refine ⟨cache', ?_, hI'⟩
      rw [hscan, hfirst]
      rfl

mutual

/-- Scrubbing a value does what its scans do. -/
theorem scrub_eq (hf : ∀ text, f [text] ≠ []) (field : Option String) :
    ∀ value : Json, (∀ items ∈ scans field value, ScansAs self f I items) → ∀ cache, I cache →
      ∃ cache', self.scrub cache field value = some (self.scrubWith f field value, cache') ∧
        I cache'
  | .string text, h, cache, hI => by
    obtain ⟨cache', htext, hI'⟩ := scrubString_eq hf h hI
    refine ⟨cache', ?_, hI'⟩
    rw [scrub, htext, scrubWith]
    rfl
  | .array items, h, cache, hI => by
    rw [scrub, scrubWith]
    rw [scans] at h
    by_cases htogether : isScannedTogether field items = true
    · rw [if_pos htogether, if_pos htogether]
      rw [if_pos htogether] at h
      obtain ⟨cache', hscan, hI'⟩ := h _ List.mem_cons_self cache hI
      refine ⟨cache', ?_, hI'⟩
      rw [hscan]
      rfl
    · rw [if_neg htogether, if_neg htogether]
      rw [if_neg htogether] at h
      obtain ⟨cache', hitems, hI'⟩ := scrubItems_eq hf field items h cache hI
      refine ⟨cache', ?_, hI'⟩
      rw [hitems]
      rfl
  | .object fields, h, cache, hI => by
    rw [scans] at h
    obtain ⟨cache', hfields, hI'⟩ := scrubFields_eq hf fields h cache hI
    refine ⟨cache', ?_, hI'⟩
    rw [scrub, hfields, scrubWith]
    rfl
  | .null, _, cache, hI => ⟨cache, rfl, hI⟩
  | .bool _, _, cache, hI => ⟨cache, rfl, hI⟩
  | .number _, _, cache, hI => ⟨cache, rfl, hI⟩

theorem scrubItems_eq (hf : ∀ text, f [text] ≠ []) (field : Option String) :
    ∀ values : List Json, (∀ items ∈ scansItems field values, ScansAs self f I items) →
      ∀ cache, I cache →
      ∃ cache', self.scrubItems cache field values =
        some (self.scrubItemsWith f field values, cache') ∧ I cache'
  | [], _, cache, hI => ⟨cache, rfl, hI⟩
  | value :: values, h, cache, hI => by
    rw [scansItems, List.forall_mem_append] at h
    obtain ⟨cache', hvalue, hI'⟩ := scrub_eq hf field value h.1 cache hI
    obtain ⟨cache'', hvalues, hI''⟩ := scrubItems_eq hf field values h.2 cache' hI'
    refine ⟨cache'', ?_, hI''⟩
    rw [scrubItems, hvalue, Option.bind_eq_bind, Option.bind_some]
    dsimp only
    rw [hvalues, scrubItemsWith]
    rfl

theorem scrubFields_eq (hf : ∀ text, f [text] ≠ []) :
    ∀ fields : List (String × Json), (∀ items ∈ scansFields fields, ScansAs self f I items) →
      ∀ cache, I cache →
      ∃ cache', self.scrubFields cache fields =
        some (self.scrubFieldsWith f fields, cache') ∧ I cache'
  | [], _, cache, hI => ⟨cache, rfl, hI⟩
  | (name, value) :: fields, h, cache, hI => by
    rw [scansFields, List.forall_mem_append] at h
    obtain ⟨cache', hvalue, hI'⟩ := scrub_eq hf (some name) value h.1 cache hI
    obtain ⟨cache'', hfields, hI''⟩ := scrubFields_eq hf fields h.2 cache' hI'
    refine ⟨cache'', ?_, hI''⟩
    rw [scrubFields, hvalue, Option.bind_eq_bind, Option.bind_some]
    dsimp only
    rw [hfields, scrubFieldsWith]
    rfl

end

/-- Values are scrubbed one after the other as their scans do. -/
theorem scrubAll_eq (hf : ∀ text, f [text] ≠ []) {values : List Json}
    (h : ∀ value ∈ values, ∀ items ∈ scans none value, ScansAs self f I items) {cache : Cache}
    (hI : I cache) :
    ∃ cache', self.scrubAll cache values = some (values.map (self.scrubWith f none), cache') ∧
      I cache' := by
  induction values generalizing cache with
  | nil => exact ⟨cache, rfl, hI⟩
  | cons value values ih =>
    obtain ⟨hvalue, hvalues⟩ := List.forall_mem_cons.mp h
    obtain ⟨cache', hscrub, hI'⟩ := scrub_eq hf none value hvalue cache hI
    obtain ⟨cache'', hall, hI''⟩ := ih hvalues hI'
    refine ⟨cache'', ?_, hI''⟩
    rw [scrubAll, hscrub, Option.bind_eq_bind, Option.bind_some]
    dsimp only
    rw [hall, List.map_cons]
    rfl

end Rule

/-! ### Shapes -/

mutual

/-- A value without the text of its strings: its arrays with their lengths, its objects with their
names, its numbers and the rest as they are. -/
def shape : Json → Json
  | .string _ => .string ""
  | .array items => .array (shapeItems items)
  | .object fields => .object (shapeFields fields)
  | .null => .null
  | .bool b => .bool b
  | .number n => .number n

/-- The shapes of items. -/
def shapeItems : List Json → List Json
  | [] => []
  | item :: items => shape item :: shapeItems items

/-- The shapes of fields, under their names. -/
def shapeFields : List (String × Json) → List (String × Json)
  | [] => []
  | (name, item) :: fields => (name, shape item) :: shapeFields fields

end

section Shape

variable {self f}

/-- Strings that are put in the places of strings leave the shapes as they are. -/
theorem shapeItems_replaceItems (texts masked : List String) :
    shapeItems (replaceItems (texts.map Json.string) masked) =
      shapeItems (texts.map Json.string) := by
  induction texts generalizing masked with
  | nil => rfl
  | cons text texts ih =>
    cases masked with
    | nil => rfl
    | cons first masked =>
      rw [List.map_cons, replaceItems, shapeItems, ih, shapeItems, shape, shape]

mutual

/-- Scrubbing keeps the shape of a value, whatever the scans return. -/
theorem shape_scrubWith (field : Option String) :
    ∀ value : Json, shape (self.scrubWith f field value) = shape value
  | .string text => by rw [scrubWith, shape, shape]
  | .array items => by
    rw [scrubWith]
    by_cases htogether : isScannedTogether field items = true
    · obtain ⟨-, hstrings⟩ := map_string_of_isScannedTogether htogether
      rw [if_pos htogether, shape, shape, ← hstrings, shapeItems_replaceItems]
    · rw [if_neg htogether, shape, shape, shapeItems_scrubItemsWith field items]
  | .object fields => by rw [scrubWith, shape, shape, shapeFields_scrubFieldsWith fields]
  | .null => by rw [scrubWith]
  | .bool _ => by rw [scrubWith]
  | .number _ => by rw [scrubWith]

theorem shapeItems_scrubItemsWith (field : Option String) :
    ∀ values : List Json, shapeItems (self.scrubItemsWith f field values) = shapeItems values
  | [] => by rw [scrubItemsWith]
  | value :: values => by
    rw [scrubItemsWith, shapeItems, shapeItems, shape_scrubWith field value,
      shapeItems_scrubItemsWith field values]

theorem shapeFields_scrubFieldsWith :
    ∀ fields : List (String × Json), shapeFields (self.scrubFieldsWith f fields) =
      shapeFields fields
  | [] => by rw [scrubFieldsWith]
  | (name, value) :: fields => by
    rw [scrubFieldsWith, shapeFields, shapeFields, shape_scrubWith (some name) value,
      shapeFields_scrubFieldsWith fields]

end

end Shape

end Procinsh.Privacy
