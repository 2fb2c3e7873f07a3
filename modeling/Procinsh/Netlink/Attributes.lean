import Procinsh.Netlink.Datagrams

/-!
# Netlink attributes

`parse_netlink_attributes` (`src/privileged_helper/netlink.rs`) splits the rest of a message into
attributes, each a length, a type with two flags and a payload, padded to four bytes.  The lengths
are not trusted: what is not an attribute within the bytes is an error.

Parsing undoes the encoding of any attributes, whether the last one is padded or not; and whatever
the bytes are, no access leaves them and the attributes that are returned lie in them one after
another.
-/

namespace Procinsh.Netlink

/-- The type and the payload of the attribute at an offset, and the next offset. -/
def parseAttribute (bytes : List UInt8) (offset : ℕ) :
    Except NetlinkError ((UInt16 × List UInt8) × ℕ) :=
  if bytes.length < offset + 4 then .error (.message "short netlink attribute")
  else do
    let length ← u16At bytes offset
    let kind ← u16At bytes (offset + 2)
    if length.toNat < 4 ∨ bytes.length < offset + length.toNat then
      .error (.message "invalid netlink attribute length")
    else do
      let data ← slice bytes (offset + 4) (offset + length.toNat)
      return ((kind &&& 0x3fff, data), offset + align length.toNat)

/-- The loop of `parse_netlink_attributes` from an offset on.  To run out of rounds counts as a panic;
a round for each byte is enough. -/
def parseAttributes (bytes : List UInt8) :
    (rounds : ℕ) → ℕ → Except NetlinkError (List (UInt16 × List UInt8))
  | 0, offset => if offset < bytes.length then .error .panic else .ok []
  | rounds + 1, offset =>
    if offset < bytes.length then do
      let (parsed, next) ← parseAttribute bytes offset
      let attributes ← parseAttributes bytes rounds next
      return parsed :: attributes
    else .ok []

/-- `parse_netlink_attributes` -/
def parseNetlinkAttributes (bytes : List UInt8) :
    Except NetlinkError (List (UInt16 × List UInt8)) :=
  parseAttributes bytes bytes.length 0

/-! ## Encoding -/

/-- An attribute: its type with the two flags, its payload and the padding behind it. -/
structure Attribute where
  kind : UInt16
  /-- The flag of a payload that consists of attributes. -/
  nested : Bool
  /-- The flag of a payload in network byte order. -/
  byteOrder : Bool
  data : List UInt8
  padding : List UInt8
  kind_le : kind ≤ 0x3fff
  /-- The length fits into the header. -/
  fits : data.length ≤ 65531
  /-- The attribute ends at a multiple of four bytes. -/
  aligned : 4 + data.length + padding.length = align (4 + data.length)

namespace Attribute

variable (a : Attribute)

/-- The type with the flags. -/
def typeField : UInt16 :=
  a.kind ||| (if a.nested then 0x8000 else 0) ||| (if a.byteOrder then 0x4000 else 0)

/-- The bytes of an attribute without the padding. -/
def unpadded : List UInt8 :=
  leBytes 2 (4 + a.data.length) ++ (leBytes 2 a.typeField.toNat ++ a.data)

/-- The bytes of an attribute. -/
def encode : List UInt8 := a.unpadded ++ a.padding

/-- The type and the payload, which is what parsing returns. -/
def parsed : UInt16 × List UInt8 := (a.kind, a.data)

end Attribute

/-- The bytes of attributes; the padding of the last one may be left out. -/
def encodeAttributes (trimmed : Bool) : List Attribute → List UInt8
  | [] => []
  | [a] => if trimmed then a.unpadded else a.encode
  | a :: b :: as => a.encode ++ encodeAttributes trimmed (b :: as)

theorem or_and_of_and_eq_zero (kind : UInt16) {flag mask : UInt16} (h : flag &&& mask = 0) :
    (kind ||| flag) &&& mask = kind &&& mask := by
  refine UInt16.toNat_inj.mp ?_
  rw [UInt16.toNat_and, UInt16.toNat_or, Nat.and_or_distrib_right, ← UInt16.toNat_and flag, h,
    ← UInt16.toNat_and]
  exact Nat.or_zero _

namespace Attribute

variable (a : Attribute)

theorem length_unpadded : a.unpadded.length = 4 + a.data.length := by
  simp only [unpadded, List.length_append, length_leBytes]
  omega

theorem length_encode : a.encode.length = align (4 + a.data.length) := by
  rw [encode, List.length_append, length_unpadded, a.aligned]

/-- The flags do not reach into the type. -/
theorem typeField_and : a.typeField &&& 0x3fff = a.kind := by
  have hkind : a.kind &&& 0x3fff = a.kind := by
    refine UInt16.toNat_inj.mp ?_
    have hle : a.kind.toNat ≤ 0x3fff := a.kind_le
    exact (Nat.and_two_pow_sub_one_eq_mod a.kind.toNat 14).trans (Nat.mod_eq_of_lt (by omega))
  rw [typeField, or_and_of_and_eq_zero _ (by cases a.byteOrder <;> decide),
    or_and_of_and_eq_zero _ (by cases a.nested <;> decide), hkind]

end Attribute

/-! ## Parsing what was encoded -/

section Complete

variable {bytes rest : List UInt8} {offset : ℕ}

theorem parseAttribute_of_drop {a : Attribute} (h : bytes.drop offset = a.unpadded ++ rest) :
    parseAttribute bytes offset = .ok (a.parsed, offset + a.encode.length) := by
  have hlength : bytes.length - offset = 4 + a.data.length + rest.length := by
    rw [← List.length_drop, h, List.length_append, a.length_unpadded]
  have hoffset : offset ≤ bytes.length := by omega
  have htoNat : (UInt16.ofNat (4 + a.data.length)).toNat = 4 + a.data.length :=
    UInt16.toNat_ofNat_of_lt' (by have := a.fits; show _ < 65536; omega)
  have hsize : u16At bytes offset = .ok (.ofNat (4 + a.data.length)) := by
    have hfield := u16At_append [] (.ofNat (4 + a.data.length))
      (leBytes 2 a.typeField.toNat ++ (a.data ++ rest))
    rw [htoNat] at hfield
    rw [← Nat.add_zero offset, u16At_drop hoffset, h, Attribute.unpadded, List.append_assoc,
      List.append_assoc]
    exact hfield
  have hkind : u16At bytes (offset + 2) = .ok a.typeField := by
    rw [u16At_drop hoffset, h, Attribute.unpadded, List.append_assoc, List.append_assoc]
    exact u16At_append (leBytes 2 (4 + a.data.length)) a.typeField _
  have hdata : slice bytes (offset + 4) (offset + (4 + a.data.length)) = .ok a.data := by
    rw [slice_drop hoffset, h, Attribute.unpadded, List.append_assoc]
    exact slice_append (leBytes 2 (4 + a.data.length) ++ leBytes 2 a.typeField.toNat) a.data rest
  have hlong : ¬bytes.length < offset + 4 := by omega
  have hvalid : ¬(4 + a.data.length < 4 ∨ bytes.length < offset + (4 + a.data.length)) := by omega
  rw [parseAttribute, if_neg hlong, hsize]
  simp only [bind, Except.bind, htoNat, if_neg hvalid, hkind, hdata, a.typeField_and,
    a.length_encode]
  rfl

theorem parseAttributes_of_le (h : bytes.length ≤ offset) (rounds : ℕ) :
    parseAttributes bytes rounds offset = .ok [] := by
  cases rounds with
  | zero => exact if_neg (not_lt.mpr h)
  | succ rounds => exact if_neg (not_lt.mpr h)

/-- What follows the first attribute, without what there is of its padding. -/
theorem exists_encodeAttributes_cons (trimmed : Bool) (a : Attribute) (as : List Attribute) :
    ∃ rest, encodeAttributes trimmed (a :: as) = a.unpadded ++ rest ∧
      rest.drop a.padding.length = encodeAttributes trimmed as := by
  cases as with
  | nil =>
    cases trimmed with
    | false => exact ⟨a.padding, rfl, List.drop_length⟩
    | true => exact ⟨[], (List.append_nil _).symm, List.drop_nil⟩
  | cons b as => exact ⟨a.padding ++ encodeAttributes trimmed (b :: as), List.append_assoc _ _ _,
      List.drop_left⟩

theorem parseAttributes_of_drop {trimmed : Bool} {as : List Attribute} {rounds : ℕ}
    (h : bytes.drop offset = encodeAttributes trimmed as)
    (hrounds : bytes.length - offset ≤ rounds) :
    parseAttributes bytes rounds offset = .ok (as.map Attribute.parsed) := by
  induction as generalizing offset rounds with
  | nil => exact parseAttributes_of_le (List.drop_eq_nil_iff.mp h) rounds
  | cons a as ih =>
    obtain ⟨rest, hrest, htail⟩ := exists_encodeAttributes_cons trimmed a as
    rw [hrest] at h
    have hlength : bytes.length - offset = 4 + a.data.length + rest.length := by
      rw [← List.length_drop, h, List.length_append, a.length_unpadded]
    have hencode : 4 ≤ a.encode.length := by
      rw [Attribute.encode, List.length_append, a.length_unpadded]
      omega
    have hnext : bytes.drop (offset + a.encode.length) = encodeAttributes trimmed as := by
      rw [← List.drop_drop, h, Attribute.encode, List.length_append, ← List.drop_drop,
        List.drop_left, htail]
    cases rounds with
    | zero => omega
    | succ rounds =>
      have hlt : offset < bytes.length := by omega
      have hparsed : parseAttributes bytes rounds (offset + a.encode.length) =
          .ok (as.map Attribute.parsed) := ih hnext (by omega)
      rw [parseAttributes, if_pos hlt, parseAttribute_of_drop h]
      simp only [bind, Except.bind, hparsed]
      rfl

end Complete

/-! ## Parsing any bytes -/

/-- The header and the payload of an attribute are in the bytes at an offset. -/
structure LiesAt (bytes : List UInt8) (offset : ℕ) (parsed : UInt16 × List UInt8) : Prop where
  inside : offset + 4 + parsed.2.length ≤ bytes.length
  length_eq : leValue ((bytes.drop offset).take 2) = 4 + parsed.2.length
  kind_eq : UInt16.ofNat (leValue ((bytes.drop (offset + 2)).take 2)) &&& 0x3fff = parsed.1
  data_eq : (bytes.drop (offset + 4)).take parsed.2.length = parsed.2

section Sound

variable {bytes : List UInt8} {offset : ℕ}

theorem slice_eq_ok {start stop : ℕ} {data : List UInt8}
    (h : slice bytes start stop = .ok data) : data = (bytes.drop start).take (stop - start) := by
  unfold slice at h
  split_ifs at h
  exact (Except.ok.inj h).symm

theorem u16At_eq_ok {value : UInt16} (h : u16At bytes offset = .ok value) :
    value = .ofNat (leValue ((bytes.drop offset).take 2)) := by
  obtain ⟨field, hfield, h⟩ := exists_of_bind_eq_ok h
  cases h
  rw [slice_eq_ok hfield, Nat.add_sub_cancel_left]

theorem toNat_u16At {value : UInt16} (h : u16At bytes offset = .ok value) :
    value.toNat = leValue ((bytes.drop offset).take 2) := by
  rw [u16At_eq_ok h]
  exact UInt16.toNat_ofNat_of_lt' (leValue_take_lt _ 2)

/-- An attribute that is parsed lies at the offset, and the next one is behind it. -/
theorem liesAt_of_parseAttribute {parsed : UInt16 × List UInt8} {next : ℕ}
    (h : parseAttribute bytes offset = .ok (parsed, next)) :
    LiesAt bytes offset parsed ∧ offset + 4 + parsed.2.length ≤ next := by
  rw [parseAttribute] at h
  split_ifs at h with hlong
  obtain ⟨length, hlength, h⟩ := exists_of_bind_eq_ok h
  obtain ⟨kind, hkind, h⟩ := exists_of_bind_eq_ok h
  split_ifs at h with hvalid
  obtain ⟨data, hdata, h⟩ := exists_of_bind_eq_ok h
  cases h
  rw [not_or, not_lt, not_lt] at hvalid
  have hdataLength : data.length = length.toNat - 4 := by
    rw [slice_eq_ok hdata, List.length_take, List.length_drop]
    omega
  have halign := le_align length.toNat
  refine ⟨⟨?_, ?_, ?_, ?_⟩, ?_⟩
  · show offset + 4 + data.length ≤ bytes.length
    omega
  · show leValue ((bytes.drop offset).take 2) = 4 + data.length
    rw [← toNat_u16At hlength]
    omega
  · rw [← u16At_eq_ok hkind]
  · show (bytes.drop (offset + 4)).take data.length = data
    rw [hdataLength, slice_eq_ok hdata]
    congr 1
    omega
  · show offset + 4 + data.length ≤ offset + align length.toNat
    omega

/-- The attributes that are parsed lie in the bytes one behind the other. -/
theorem exists_offsets_of_parseAttributes {rounds : ℕ} {attributes : List (UInt16 × List UInt8)}
    (h : parseAttributes bytes rounds offset = .ok attributes) :
    ∃ offsets, List.Forall₂ (LiesAt bytes) offsets attributes ∧ (∀ o ∈ offsets, offset ≤ o) ∧
      (offsets.zip attributes).Pairwise fun p q => p.1 + 4 + p.2.2.length ≤ q.1 := by
  induction rounds generalizing offset attributes with
  | zero =>
    rw [parseAttributes] at h
    split_ifs at h
    cases h
    exact ⟨[], .nil, by simp, .nil⟩
  | succ rounds ih =>
    rw [parseAttributes] at h
    split_ifs at h
    · obtain ⟨⟨parsed, next⟩, hparsed, h⟩ := exists_of_bind_eq_ok h
      obtain ⟨later, hlater, h⟩ := exists_of_bind_eq_ok h
      cases h
      obtain ⟨hlies, hnext⟩ := liesAt_of_parseAttribute hparsed
      obtain ⟨offsets, hall, hbehind, hordered⟩ := ih hlater
      refine ⟨offset :: offsets, .cons hlies hall, ?_, ?_⟩
      · exact List.forall_mem_cons.mpr ⟨le_rfl, fun o ho => by have := hbehind o ho; omega⟩
      · refine List.pairwise_cons.mpr ⟨fun q hq => ?_, hordered⟩
        exact hnext.trans (hbehind q.1 (List.of_mem_zip hq).1)
    · cases h
      exact ⟨[], .nil, by simp, .nil⟩

theorem safe_parseAttribute : Safe (parseAttribute bytes offset)
    fun result => offset + 4 ≤ result.2 := by
  rw [parseAttribute]
  refine Yields.ite (fun _ => .error (by simp)) fun hlong => ?_
  rw [not_lt] at hlong
  refine Yields.bind (safe_u16At (by omega)) fun length _ => ?_
  refine Yields.bind (safe_u16At (by omega)) fun kind _ => ?_
  refine Yields.ite (fun _ => .error (by simp)) fun hlength => ?_
  rw [not_or, not_lt, not_lt] at hlength
  refine Yields.bind (safe_slice (by omega) (by omega)) fun data _ => .pure ?_
  have halign := le_align length.toNat
  omega

theorem safe_parseAttributes {rounds : ℕ} (hrounds : bytes.length - offset ≤ rounds) :
    Safe (parseAttributes bytes rounds offset) fun _ => True := by
  induction rounds generalizing offset with
  | zero =>
    rw [parseAttributes, if_neg (by omega)]
    exact .ok trivial
  | succ rounds ih =>
    rw [parseAttributes]
    refine Yields.ite (fun _ => Yields.bind safe_parseAttribute fun result hnext => ?_)
      fun _ => .ok trivial
    exact Yields.bind (ih (by omega)) fun _ _ => .pure trivial

theorem safe_parseNetlinkAttributes (bytes : List UInt8) :
    Safe (parseNetlinkAttributes bytes) fun _ => True :=
  safe_parseAttributes le_rfl

end Sound

/-- Parsing undoes encoding, whatever flags the types have and whether the last attribute is padded;
and for any bytes it reads inside them only and returns attributes that lie in them one behind the
other. -/
theorem parseNetlinkAttributes_exact :
    (∀ (trimmed : Bool) (attributes : List Attribute),
      parseNetlinkAttributes (encodeAttributes trimmed attributes) =
        .ok (attributes.map Attribute.parsed)) ∧
    ∀ bytes, parseNetlinkAttributes bytes ≠ .error .panic ∧
      ∀ attributes, parseNetlinkAttributes bytes = .ok attributes →
        ∃ offsets, List.Forall₂ (LiesAt bytes) offsets attributes ∧
          (offsets.zip attributes).Pairwise fun p q => p.1 + 4 + p.2.2.length ≤ q.1 := by
  refine ⟨fun trimmed attributes => parseAttributes_of_drop rfl le_rfl, fun bytes =>
    ⟨fun hpanic => ?_, fun attributes h => ?_⟩⟩
  · exact (safe_parseNetlinkAttributes bytes).allowed_of_eq hpanic rfl
  · obtain ⟨offsets, hall, -, hordered⟩ := exists_offsets_of_parseAttributes h
    exact ⟨offsets, hall, hordered⟩

end Procinsh.Netlink
