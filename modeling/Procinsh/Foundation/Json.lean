import Mathlib.Data.List.Basic
import Mathlib.Data.String.Basic

/-!
# JSON values

A JSON value, the operations on object fields that programs use, and the compact text of a value
with the two facts about it that keys built from texts rely on: the text of a string determines the
string, and the decimal text of an integer determines the integer and contains no separator.

The fields of an object are kept in ascending key order by the operations, which is the canonical
order of an ordered-map representation; the lemmas about fields hold for every list of fields.
Integers are exact.  A number that is not an integer is carried as its shortest decimal text.
-/

namespace Procinsh

/-- A JSON number. -/
inductive Number
  /-- An integer. -/
  | int (n : ℤ)
  /-- A number with a fraction or an exponent, as its text. -/
  | float (text : String)
  deriving DecidableEq, Repr

/-- A JSON value. -/
inductive Json
  | null
  | bool (b : Bool)
  | number (n : Number)
  | string (s : String)
  | array (items : List Json)
  | object (fields : List (String × Json))

namespace Json

instance : Inhabited Json := ⟨null⟩

/-- An integer as a JSON value. -/
def int (n : ℤ) : Json := number (.int n)

/-! ### Equality is decidable -/

mutual

/-- Structural comparison of values. -/
def beq : Json → Json → Bool
  | null, null => true
  | bool a, bool b => a == b
  | number a, number b => a == b
  | string a, string b => a == b
  | array a, array b => beqItems a b
  | object a, object b => beqFields a b
  | _, _ => false

/-- Structural comparison of array items. -/
def beqItems : List Json → List Json → Bool
  | [], [] => true
  | a :: as, b :: bs => beq a b && beqItems as bs
  | _, _ => false

/-- Structural comparison of object fields. -/
def beqFields : List (String × Json) → List (String × Json) → Bool
  | [], [] => true
  | (k, a) :: as, (l, b) :: bs => k == l && beq a b && beqFields as bs
  | _, _ => false

end

mutual

private theorem eq_of_beq : ∀ a b : Json, beq a b = true → a = b
  | null, b, h => by cases b <;> simp_all [beq]
  | bool _, b, h => by cases b <;> simp_all [beq]
  | number _, b, h => by cases b <;> simp_all [beq]
  | string _, b, h => by cases b <;> simp_all [beq]
  | array as, b, h => by
    cases b with
    | array bs => rw [eq_of_beqItems as bs (by simpa [beq] using h)]
    | _ => simp [beq] at h
  | object as, b, h => by
    cases b with
    | object bs => rw [eq_of_beqFields as bs (by simpa [beq] using h)]
    | _ => simp [beq] at h

private theorem eq_of_beqItems : ∀ as bs : List Json, beqItems as bs = true → as = bs
  | [], bs, h => by cases bs <;> simp_all [beqItems]
  | a :: as, bs, h => by
    cases bs with
    | nil => simp [beqItems] at h
    | cons b bs =>
      simp only [beqItems, Bool.and_eq_true] at h
      rw [eq_of_beq a b h.1, eq_of_beqItems as bs h.2]

private theorem eq_of_beqFields :
    ∀ as bs : List (String × Json), beqFields as bs = true → as = bs
  | [], bs, h => by cases bs <;> simp_all [beqFields]
  | (k, a) :: as, bs, h => by
    cases bs with
    | nil => simp [beqFields] at h
    | cons b bs =>
      obtain ⟨l, b⟩ := b
      simp only [beqFields, Bool.and_eq_true, beq_iff_eq] at h
      rw [h.1.1, eq_of_beq a b h.1.2, eq_of_beqFields as bs h.2]

end

mutual

private theorem beq_refl : ∀ a : Json, beq a a = true
  | null => rfl
  | bool _ => by simp [beq]
  | number _ => by simp [beq]
  | string _ => by simp [beq]
  | array as => by rw [beq]; exact beqItems_refl as
  | object as => by rw [beq]; exact beqFields_refl as

private theorem beqItems_refl : ∀ as : List Json, beqItems as as = true
  | [] => rfl
  | a :: as => by rw [beqItems, beq_refl a, beqItems_refl as]; rfl

private theorem beqFields_refl : ∀ as : List (String × Json), beqFields as as = true
  | [] => rfl
  | (k, a) :: as => by rw [beqFields, beq_refl a, beqFields_refl as]; simp

end

instance : DecidableEq Json := fun a b =>
  decidable_of_iff (beq a b = true) ⟨eq_of_beq a b, fun h => h ▸ beq_refl a⟩

/-! ### Fields of an object -/

/-- The value of the first field with the key. -/
def lookupField (k : String) : List (String × Json) → Option Json
  | [] => none
  | (l, v) :: fs => if k = l then some v else lookupField k fs

/-- Insertion of a field in ascending key order; a field with the key is replaced. -/
def insertField (k : String) (v : Json) : List (String × Json) → List (String × Json)
  | [] => [(k, v)]
  | (l, w) :: fs =>
    if k < l then (k, v) :: (l, w) :: fs
    else if k = l then (k, v) :: fs
    else (l, w) :: insertField k v fs

/-- Removal of the fields with the key. -/
def eraseField (k : String) (fs : List (String × Json)) : List (String × Json) :=
  fs.filter fun f => f.1 ≠ k

@[simp] theorem lookupField_insertField_self (k : String) (v : Json) (fs : List (String × Json)) :
    lookupField k (insertField k v fs) = some v := by
  induction fs with
  | nil => simp [insertField, lookupField]
  | cons f fs ih =>
    rw [insertField]
    split
    · simp [lookupField]
    · split
      · simp [lookupField]
      · next hne => rw [lookupField, if_neg hne, ih]

@[simp] theorem lookupField_insertField_ne {k l : String} (h : l ≠ k) (v : Json)
    (fs : List (String × Json)) :
    lookupField l (insertField k v fs) = lookupField l fs := by
  induction fs with
  | nil => simp [insertField, lookupField, h]
  | cons f fs ih =>
    rw [insertField]
    split
    · rw [lookupField, if_neg h]
    · split
      · next heq =>
        rw [lookupField, if_neg h]
        conv_rhs => rw [lookupField, if_neg (heq ▸ h)]
      · rw [lookupField, lookupField, ih]

@[simp] theorem lookupField_eraseField_self (k : String) (fs : List (String × Json)) :
    lookupField k (eraseField k fs) = none := by
  induction fs with
  | nil => rfl
  | cons f fs ih =>
    rw [eraseField, List.filter_cons]
    split
    · next h =>
      have hne : ¬ k = f.1 := fun he => by simp [he] at h
      rw [lookupField, if_neg hne]
      exact ih
    · exact ih

@[simp] theorem lookupField_eraseField_ne {k l : String} (h : l ≠ k) (fs : List (String × Json)) :
    lookupField l (eraseField k fs) = lookupField l fs := by
  induction fs with
  | nil => rfl
  | cons f fs ih =>
    rw [eraseField, List.filter_cons]
    split
    · rw [lookupField, lookupField]
      exact congrArg _ ih
    · next hk =>
      have hf : f.1 = k := by simpa using hk
      rw [lookupField, if_neg (hf ▸ h)]
      exact ih

/-- Removing a key that no field has changes nothing. -/
theorem eraseField_of_lookupField_eq_none {k : String} {fs : List (String × Json)}
    (h : lookupField k fs = none) : eraseField k fs = fs := by
  induction fs with
  | nil => rfl
  | cons f fs ih =>
    rw [lookupField] at h
    split at h
    · cases h
    · next hne =>
      have hkeep : eraseField k (f :: fs) = f :: eraseField k fs :=
        List.filter_cons_of_pos (by simpa using Ne.symm hne)
      rw [hkeep, ih h]

/-- Removing a key forgets a field that was inserted under it. -/
theorem eraseField_insertField (k : String) (v : Json) (fs : List (String × Json)) :
    eraseField k (insertField k v fs) = eraseField k fs := by
  induction fs with
  | nil => simp [insertField, eraseField]
  | cons f fs ih =>
    rw [insertField]
    split
    · exact List.filter_cons_of_neg (by simp)
    · split
      · next heq =>
        rw [eraseField, eraseField, List.filter_cons_of_neg (by simp),
          List.filter_cons_of_neg (by simp [heq])]
      · next hne =>
        have hkeep : ∀ gs, eraseField k (f :: gs) = f :: eraseField k gs := fun gs =>
          List.filter_cons_of_pos (by simpa using Ne.symm hne)
        rw [hkeep, ih]
        exact (hkeep fs).symm

/-- The field of an object; `none` when the field is missing or the value is not an object. -/
def field? : Json → String → Option Json
  | object fs, k => lookupField k fs
  | _, _ => none

/-- The field of an object, or `null`. -/
def index (v : Json) (k : String) : Json := (v.field? k).getD null

/-- The value with the field set; a value that is not an object is left alone. -/
def setField : Json → String → Json → Json
  | object fs, k, v => object (insertField k v fs)
  | w, _, _ => w

/-- The value without the field. -/
def removeField : Json → String → Json
  | object fs, k => object (eraseField k fs)
  | w, _ => w

/-- The items of an array. -/
def asArray? : Json → Option (List Json)
  | array items => some items
  | _ => none

/-- The characters of a string. -/
def asString? : Json → Option String
  | string s => some s
  | _ => none

/-- The integer of a number. -/
def asInt? : Json → Option ℤ
  | number (.int n) => some n
  | _ => none

/-- Whether the value is an object. -/
def isObject : Json → Bool
  | object _ => true
  | _ => false

@[simp] theorem isObject_setField (v : Json) (k : String) (w : Json) :
    (v.setField k w).isObject = v.isObject := by
  cases v <;> rfl

@[simp] theorem isObject_removeField (v : Json) (k : String) :
    (v.removeField k).isObject = v.isObject := by
  cases v <;> rfl

@[simp] theorem field?_setField_self {v : Json} (hv : v.isObject = true) (k : String) (w : Json) :
    (v.setField k w).field? k = some w := by
  cases v with
  | object fs => exact lookupField_insertField_self k w fs
  | _ => simp [isObject] at hv

@[simp] theorem field?_setField_ne (v : Json) {k l : String} (h : l ≠ k) (w : Json) :
    (v.setField k w).field? l = v.field? l := by
  cases v with
  | object fs => exact lookupField_insertField_ne h w fs
  | _ => rfl

@[simp] theorem field?_removeField_self (v : Json) (k : String) :
    (v.removeField k).field? k = none := by
  cases v with
  | object fs => exact lookupField_eraseField_self k fs
  | _ => rfl

@[simp] theorem field?_removeField_ne (v : Json) {k l : String} (h : l ≠ k) :
    (v.removeField k).field? l = v.field? l := by
  cases v with
  | object fs => exact lookupField_eraseField_ne h fs
  | _ => rfl

/-- Setting a field that is missing is undone by removing it. -/
theorem removeField_setField_of_field?_eq_none {v : Json} {k : String} (h : v.field? k = none)
    (w : Json) : (v.setField k w).removeField k = v := by
  cases v with
  | object fs =>
    have hfs : eraseField k (insertField k w fs) = fs :=
      (eraseField_insertField k w fs).trans (eraseField_of_lookupField_eq_none h)
    exact congrArg object hfs
  | _ => rfl

/-- A present field is what indexing returns. -/
theorem index_of_field? {v : Json} {k : String} {w : Json} (h : v.field? k = some w) :
    v.index k = w := by
  rw [index, h, Option.getD_some]

/-- Assignment to a field, which turns `null` into an object; other values have no fields. -/
def assign? : Json → String → Json → Option Json
  | null, k, v => some (object [(k, v)])
  | object fs, k, v => some (object (insertField k v fs))
  | _, _, _ => none

/-- Removal of a field, which only objects have. -/
def remove? : Json → String → Option Json
  | object fs, k => some (object (eraseField k fs))
  | _, _ => none

theorem assign?_of_isObject {v : Json} (hv : v.isObject = true) (k : String) (w : Json) :
    v.assign? k w = some (v.setField k w) := by
  cases v with
  | object fs => rfl
  | _ => simp [isObject] at hv

theorem remove?_of_isObject {v : Json} (hv : v.isObject = true) (k : String) :
    v.remove? k = some (v.removeField k) := by
  cases v with
  | object fs => rfl
  | _ => simp [isObject] at hv

/-! ### Compact text -/

/-- A hexadecimal digit, in lower case. -/
def hexDigit (n : ℕ) : Char := Nat.digitChar n

/-- The text of a character inside a JSON string: quote, backslash and control characters are
escaped, every other character stands for itself. -/
def escapeChar (c : Char) : List Char :=
  if c = Char.ofNat 34 then [Char.ofNat 92, Char.ofNat 34]
  else if c = Char.ofNat 92 then [Char.ofNat 92, Char.ofNat 92]
  else if c = Char.ofNat 8 then [Char.ofNat 92, 'b']
  else if c = Char.ofNat 9 then [Char.ofNat 92, 't']
  else if c = Char.ofNat 10 then [Char.ofNat 92, 'n']
  else if c = Char.ofNat 12 then [Char.ofNat 92, 'f']
  else if c = Char.ofNat 13 then [Char.ofNat 92, 'r']
  else if c.toNat < 32 then
    [Char.ofNat 92, 'u', '0', '0', hexDigit (c.toNat / 16), hexDigit (c.toNat % 16)]
  else [c]

/-- The value of a hexadecimal digit. -/
private def digitValue (c : Char) : ℕ := if c.toNat < 58 then c.toNat - 48 else c.toNat - 87

private theorem digitValue_hexDigit : ∀ n < 16, digitValue (hexDigit n) = n := by decide

/-- The first character of an escaped text and the text after it. -/
private def unescape : List Char → Option (Char × List Char)
  | [] => none
  | c :: l =>
    if c = Char.ofNat 92 then
      match l with
      | [] => none
      | d :: l =>
        if d = 'u' then
          match l with
          | _ :: _ :: h :: g :: l => some (Char.ofNat (16 * digitValue h + digitValue g), l)
          | _ => none
        else if d = 'b' then some (Char.ofNat 8, l)
        else if d = 't' then some (Char.ofNat 9, l)
        else if d = 'n' then some (Char.ofNat 10, l)
        else if d = 'f' then some (Char.ofNat 12, l)
        else if d = 'r' then some (Char.ofNat 13, l)
        else some (d, l)
    else some (c, l)

/-- Every escape can be read back, whatever follows it. -/
private theorem unescape_escapeChar (c : Char) (l : List Char) :
    unescape (escapeChar c ++ l) = some (c, l) := by
  unfold escapeChar
  split_ifs with h₁ h₂ h₃ h₄ h₅ h₆ h₇ hlt
  · rw [h₁]; rfl
  · rw [h₂]; rfl
  · rw [h₃]; rfl
  · rw [h₄]; rfl
  · rw [h₅]; rfl
  · rw [h₆]; rfl
  · rw [h₇]; rfl
  · have hhi : digitValue (hexDigit (c.toNat / 16)) = c.toNat / 16 :=
      digitValue_hexDigit _ (by omega)
    have hlo : digitValue (hexDigit (c.toNat % 16)) = c.toNat % 16 :=
      digitValue_hexDigit _ (by omega)
    have hc : 16 * (c.toNat / 16) + c.toNat % 16 = c.toNat := Nat.div_add_mod _ _
    simp [unescape, hhi, hlo, hc]
  · simp [unescape, h₂]

/-- The text of a string, with its quotes. -/
def stringText (s : String) : List Char :=
  Char.ofNat 34 :: (s.toList.flatMap escapeChar ++ [Char.ofNat 34])

/-- The text of a number. -/
def numberText : Number → List Char
  | .int n => (toString n).toList
  | .float text => text.toList

mutual

/-- The compact text of a value. -/
def textChars : Json → List Char
  | null => "null".toList
  | bool b => (toString b).toList
  | number n => numberText n
  | string s => stringText s
  | array items => '[' :: (itemsText items ++ [']'])
  | object fields => '\x7b' :: (fieldsText fields ++ ['\x7d'])

/-- The texts of array items, separated by commas. -/
def itemsText : List Json → List Char
  | [] => []
  | [v] => textChars v
  | v :: vs => textChars v ++ ',' :: itemsText vs

/-- The texts of object fields, separated by commas. -/
def fieldsText : List (String × Json) → List Char
  | [] => []
  | [(k, v)] => stringText k ++ ':' :: textChars v
  | (k, v) :: fs => stringText k ++ ':' :: (textChars v ++ ',' :: fieldsText fs)

end

/-- The compact text of a value as a string. -/
def text (v : Json) : String := String.ofList v.textChars

/-- The length of the compact text in bytes. -/
def textSize (v : Json) : ℕ := v.text.utf8ByteSize

/-! ### What a text determines -/

/-- The escaped text of a list of characters determines the characters. -/
private theorem flatMap_escapeChar_inj {l m rest rest' : List Char}
    (h : l.flatMap escapeChar ++ Char.ofNat 34 :: rest =
      m.flatMap escapeChar ++ Char.ofNat 34 :: rest') : l = m ∧ rest = rest' := by
  have hquote : ∀ (c : Char) (k : List Char), escapeChar c ++ k ≠ Char.ofNat 34 :: rest ∧
      escapeChar c ++ k ≠ Char.ofNat 34 :: rest' := by
    intro c k
    unfold escapeChar
    split_ifs <;> simp_all
  induction l generalizing m with
  | nil =>
    cases m with
    | nil => simpa using h
    | cons d m =>
      rw [List.flatMap_cons, List.append_assoc] at h
      exact absurd h.symm (hquote d _).1
  | cons c l ih =>
    cases m with
    | nil =>
      rw [List.flatMap_cons, List.append_assoc] at h
      exact absurd h (hquote c _).2
    | cons d m =>
      rw [List.flatMap_cons, List.flatMap_cons, List.append_assoc, List.append_assoc] at h
      have hread := congrArg unescape h
      rw [unescape_escapeChar, unescape_escapeChar, Option.some.injEq, Prod.mk.injEq] at hread
      obtain ⟨rfl, htail⟩ := hread
      obtain ⟨rfl, hrest⟩ := ih htail
      exact ⟨rfl, hrest⟩

/-- The text of a string determines the string. -/
theorem stringText_inj {s t : String} : stringText s = stringText t ↔ s = t := by
  constructor
  · intro h
    have hlist := (flatMap_escapeChar_inj (List.cons.inj h).2).1
    exact String.ext hlist
  · rintro rfl
    rfl

/-- The text of an array determines its first item if that is a string. -/
theorem string_eq_of_text_array_eq {s t : String} {xs ys : List Json}
    (h : (array (string s :: xs)).text = (array (string t :: ys)).text) : s = t := by
  have hitems : ∀ (v : Json) (vs : List Json), ∃ rest, itemsText (v :: vs) = textChars v ++ rest := by
    intro v vs
    cases vs with
    | nil => exact ⟨[], by simp [itemsText]⟩
    | cons w ws => exact ⟨',' :: itemsText (w :: ws), by simp [itemsText]⟩
  obtain ⟨rest, hs⟩ := hitems (string s) xs
  obtain ⟨rest', ht⟩ := hitems (string t) ys
  have hchars := congrArg String.toList h
  rw [text, text, String.toList_ofList, String.toList_ofList, textChars, textChars, hs, ht,
    textChars, textChars, stringText, stringText] at hchars
  simp only [List.append_assoc, List.cons_append, List.nil_append] at hchars
  have hquoted := (List.cons.inj (List.cons.inj hchars).2).2
  exact String.ext (flatMap_escapeChar_inj hquoted).1

/-- The characters of the decimal text of a natural number are digits. -/
private theorem isDigit_of_mem_repr {n : ℕ} {c : Char} (h : c ∈ n.repr.toList) :
    c.isDigit = true := by
  rw [Nat.toList_repr] at h
  exact Nat.isDigit_of_mem_toDigits (by decide) le_rfl h

/-- The decimal text of an integer consists of digits and a minus sign. -/
theorem mem_toString_int {n : ℤ} {c : Char} (h : c ∈ (toString n).toList) :
    c.isDigit = true ∨ c = '-' := by
  rw [Int.toString_eq_repr, Int.repr_eq_if] at h
  split at h
  · exact Or.inl (isDigit_of_mem_repr h)
  · rw [String.toList_append, List.mem_append] at h
    rcases h with h | h
    · exact Or.inr (by simpa using h)
    · exact Or.inl (isDigit_of_mem_repr h)

/-- The decimal text of a natural number determines the number. -/
private theorem eq_of_repr_eq {m n : ℕ} (h : m.repr = n.repr) : m = n := by
  have hdigits := congrArg String.toList h
  rw [Nat.toList_repr, Nat.toList_repr] at hdigits
  rw [← @Nat.ofDigitChars_ten_toDigits m, hdigits, Nat.ofDigitChars_ten_toDigits]

/-- The text of a natural number does not start with a minus sign. -/
private theorem repr_ne_minus (m n : ℕ) : m.repr ≠ "-" ++ n.repr := by
  intro h
  have hmem : '-' ∈ m.repr.toList := by
    rw [h, String.toList_append]
    exact List.mem_append_left _ (by decide)
  exact absurd (isDigit_of_mem_repr hmem) (by decide)

/-- The decimal text of an integer determines the integer. -/
theorem toString_int_inj {m n : ℤ} : toString m = toString n ↔ m = n := by
  constructor
  · intro h
    rw [Int.toString_eq_repr, Int.toString_eq_repr, Int.repr_eq_if, Int.repr_eq_if] at h
    split at h <;> split at h
    · have hnat := eq_of_repr_eq h
      omega
    · exact absurd h (repr_ne_minus _ _)
    · exact absurd h.symm (repr_ne_minus _ _)
    · have hlist := congrArg String.toList h
      rw [String.toList_append, String.toList_append, List.append_cancel_left_eq] at hlist
      have hnat := eq_of_repr_eq (String.ext hlist)
      omega
  · rintro rfl
    rfl

/-! ### Arrays of strings and integers -/

/-- Whether the value is a string or an integer. -/
def isPlain : Json → Bool
  | string _ => true
  | number (.int _) => true
  | _ => false

/-- Whether a character is in the decimal text of an integer. -/
private def isIntChar (c : Char) : Bool := c.isDigit || c = '-'

private theorem takeWhile_toString_int (n : ℤ) {c : Char} (hc : isIntChar c = false)
    (l : List Char) : ((toString n).toList ++ c :: l).takeWhile isIntChar = (toString n).toList := by
  rw [List.takeWhile_append_of_pos, List.takeWhile_cons_of_neg (by simp [hc]), List.append_nil]
  intro d hd
  rcases mem_toString_int hd with h | h
  · simp [isIntChar, h]
  · simp [isIntChar, h]

/-- The text of an integer does not start with a quote. -/
private theorem toString_int_append_ne (n : ℤ) (c : Char) (hc : isIntChar c = false)
    (hquote : c ≠ Char.ofNat 34) (l m : List Char) :
    (toString n).toList ++ c :: l ≠ Char.ofNat 34 :: m := by
  intro h
  have htake := congrArg (List.takeWhile isIntChar) h
  rw [takeWhile_toString_int n hc, List.takeWhile_cons_of_neg (by decide)] at htake
  rw [htake, List.nil_append] at h
  exact hquote (List.cons.inj h).1

/-- The text of a string or an integer ends at the separator behind it. -/
private theorem textChars_append_inj {v w : Json} (hv : v.isPlain) (hw : w.isPlain) {c d : Char}
    (hc : isIntChar c = false ∧ c ≠ Char.ofNat 34) (hd : isIntChar d = false ∧ d ≠ Char.ofNat 34)
    {l m : List Char} (h : textChars v ++ c :: l = textChars w ++ d :: m) :
    v = w ∧ c :: l = d :: m := by
  cases v with
  | string s =>
    cases w with
    | string t =>
      rw [textChars, textChars, stringText, stringText] at h
      simp only [List.cons_append, List.append_assoc, List.nil_append] at h
      obtain ⟨hst, hrest⟩ := flatMap_escapeChar_inj (List.cons.inj h).2
      exact ⟨congrArg string (String.ext hst), hrest⟩
    | number n =>
      cases n with
      | int n => exact absurd h.symm (toString_int_append_ne n d hd.1 hd.2 _ _)
      | float _ => simp [isPlain] at hw
    | _ => simp [isPlain] at hw
  | number n =>
    cases n with
    | int n =>
      cases w with
      | string t => exact absurd h (toString_int_append_ne n c hc.1 hc.2 _ _)
      | number k =>
        cases k with
        | int k =>
          simp only [textChars, numberText] at h
          have htake := congrArg (List.takeWhile isIntChar) h
          rw [takeWhile_toString_int n hc.1, takeWhile_toString_int k hd.1] at htake
          obtain rfl := toString_int_inj.mp (String.toList_inj.mp htake)
          exact ⟨rfl, List.append_cancel_left h⟩
        | float _ => simp [isPlain] at hw
      | _ => simp [isPlain] at hw
    | float _ => simp [isPlain] at hv
  | _ => simp [isPlain] at hv

/-- Items that are strings and integers end at the bracket behind them. -/
private theorem itemsText_append_inj {xs ys : List Json} (hlength : xs.length = ys.length)
    (hxs : ∀ v ∈ xs, v.isPlain) (hys : ∀ v ∈ ys, v.isPlain) {l m : List Char}
    (h : itemsText xs ++ ']' :: l = itemsText ys ++ ']' :: m) : xs = ys := by
  induction xs generalizing ys with
  | nil => exact (List.eq_nil_of_length_eq_zero hlength.symm).symm
  | cons v vs ih =>
    cases ys with
    | nil => cases hlength
    | cons w ws =>
      have hv := hxs v List.mem_cons_self
      have hw := hys w List.mem_cons_self
      have hcomma : isIntChar ',' = false ∧ ',' ≠ Char.ofNat 34 := by decide
      have hbracket : isIntChar ']' = false ∧ ']' ≠ Char.ofNat 34 := by decide
      cases vs with
      | nil =>
        obtain rfl := List.eq_nil_of_length_eq_zero (Nat.succ_injective hlength).symm
        rw [itemsText, itemsText] at h
        rw [(textChars_append_inj hv hw hbracket hbracket h).1]
      | cons v' vs =>
        cases ws with
        | nil => cases hlength
        | cons w' ws =>
          simp only [itemsText, List.append_assoc, List.cons_append] at h
          obtain ⟨rfl, hrest⟩ := textChars_append_inj hv hw hcomma hcomma h
          exact congrArg (v :: ·) (ih (Nat.succ_injective hlength)
            (fun u hu => hxs u (List.mem_cons_of_mem _ hu))
            (fun u hu => hys u (List.mem_cons_of_mem _ hu)) (List.cons.inj hrest).2)

/-- The text of an array of strings and integers determines its items. -/
theorem text_array_inj {xs ys : List Json} (hlength : xs.length = ys.length)
    (hxs : ∀ v ∈ xs, v.isPlain) (hys : ∀ v ∈ ys, v.isPlain) :
    (array xs).text = (array ys).text ↔ xs = ys := by
  constructor
  · intro h
    have hchars := congrArg String.toList h
    rw [text, text, String.toList_ofList, String.toList_ofList, textChars, textChars] at hchars
    exact itemsText_append_inj hlength hxs hys (List.cons.inj hchars).2
  · rintro rfl
    rfl

end Json

end Procinsh
