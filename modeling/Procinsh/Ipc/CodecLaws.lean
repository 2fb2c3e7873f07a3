import Procinsh.Ipc.Codec

/-!
# Laws of the binary codec

Every value has one encoding.  Writing appends it as long as it fits; reading it gives the value
back, whatever follows; and a value is read from its encoding only.  Values of some types do not
cross the connection unchanged, and some are not sent or not accepted; `Transfer` says what becomes
of them.

The laws are stated for one value and composed along pairs, lists, options, results, structures and
enumerations.  `LawfulWire` is the case of types whose values all cross unchanged.
-/

namespace Procinsh.Ipc

variable {α β : Type}

/-! ## Writers -/

/-- The writer appends the bytes, if they fit. -/
def Writes (w : Writer) (bytes : List UInt8) : Prop :=
  ∀ output : Encoder, output.bytes.length ≤ output.limit → w output = append bytes output

/-- The writer meets a length that does not fit in a `u32`. -/
def Overflows (w : Writer) : Prop :=
  ∀ output : Encoder, output.bytes.length ≤ output.limit → w output = .error limitExceeded

/-- The writer fails whatever the limit. -/
def Fails (w : Writer) : Prop :=
  ∀ output : Encoder, output.bytes.length ≤ output.limit → ∃ e, w output = .error e

/-- Appending succeeds when the bytes fit. -/
lemma append_of_le {bytes : List UInt8} {output : Encoder}
    (h : output.bytes.length + bytes.length ≤ output.limit) :
    append bytes output = .ok ((), ⟨output.bytes ++ bytes, output.limit⟩) :=
  if_neg (by omega)

/-- Appending fails when the bytes do not fit. -/
lemma append_of_lt {bytes : List UInt8} {output : Encoder}
    (hlength : output.bytes.length ≤ output.limit)
    (h : output.limit < output.bytes.length + bytes.length) :
    append bytes output = .error limitExceeded :=
  if_pos (by omega)

/-- A sequence of writers, when the first one succeeds. -/
lemma writer_bind_ok {w : Writer} {f : Unit → Writer} {output mid : Encoder}
    (h : w output = .ok ((), mid)) : (w >>= f) output = f () mid := by
  change (w output >>= fun p => f p.1 p.2) = _
  rw [h]
  rfl

/-- A sequence of writers, when the first one fails. -/
lemma writer_bind_error {w : Writer} {f : Unit → Writer} {output : Encoder} {e : String}
    (h : w output = .error e) : (w >>= f) output = .error e := by
  change (w output >>= fun p => f p.1 p.2) = _
  rw [h]
  rfl

lemma writes_append (bytes : List UInt8) : Writes (append bytes) bytes := fun _ _ => rfl

lemma writes_pure : Writes (pure ()) [] := by
  intro output hlength
  rw [append_of_le (by simpa using hlength), List.append_nil]
  rfl

/-- After a writer that appends bytes, either they did not fit or the next one continues. -/
lemma Writes.bind_eq {w : Writer} {x : List UInt8} (hw : Writes w x) (f : Unit → Writer)
    {output : Encoder} (hlength : output.bytes.length ≤ output.limit) :
    (output.limit < output.bytes.length + x.length ∧ (w >>= f) output = .error limitExceeded) ∨
      (output.bytes.length + x.length ≤ output.limit ∧
        (w >>= f) output = f () ⟨output.bytes ++ x, output.limit⟩) := by
  have hx := hw output hlength
  by_cases hfits : output.bytes.length + x.length ≤ output.limit
  · rw [append_of_le hfits] at hx
    exact .inr ⟨hfits, writer_bind_ok hx⟩
  · have hover := Nat.lt_of_not_le hfits
    rw [append_of_lt hlength hover] at hx
    exact .inl ⟨hover, writer_bind_error hx⟩

/-- A sequence of writers appends what they append. -/
lemma Writes.bind {w : Writer} {f : Unit → Writer} {x y : List UInt8} (hw : Writes w x)
    (hf : Writes (f ()) y) : Writes (w >>= f) (x ++ y) := by
  intro output hlength
  rcases hw.bind_eq f hlength with ⟨hover, h⟩ | ⟨hfits, h⟩
  · rw [h, append_of_lt hlength (by rw [List.length_append]; omega)]
  · have hlength' : (output.bytes ++ x).length ≤ output.limit := by rwa [List.length_append]
    rw [h, hf ⟨output.bytes ++ x, output.limit⟩ hlength']
    by_cases hboth : output.bytes.length + (x ++ y).length ≤ output.limit
    · rw [append_of_le hboth, append_of_le (by simpa [Nat.add_assoc] using hboth),
        List.append_assoc]
    · rw [append_of_lt hlength (Nat.lt_of_not_le hboth), append_of_lt hlength' (by
        simpa [Nat.add_assoc] using hboth)]

lemma Writes.bind_overflows {w : Writer} {f : Unit → Writer} {x : List UInt8} (hw : Writes w x)
    (hf : Overflows (f ())) : Overflows (w >>= f) := by
  intro output hlength
  rcases hw.bind_eq f hlength with ⟨-, h⟩ | ⟨hfits, h⟩
  · exact h
  · rw [h]
    exact hf _ (by rwa [List.length_append])

lemma Overflows.bind {w : Writer} (hw : Overflows w) (f : Unit → Writer) :
    Overflows (w >>= f) := fun output hlength => writer_bind_error (hw output hlength)

lemma Overflows.fails {w : Writer} (hw : Overflows w) : Fails w :=
  fun output hlength => ⟨limitExceeded, hw output hlength⟩

lemma Fails.bind_left {w : Writer} (h : Fails w) (f : Unit → Writer) : Fails (w >>= f) := by
  intro output hlength
  obtain ⟨e, he⟩ := h output hlength
  exact ⟨e, writer_bind_error he⟩

lemma Writes.bind_fails {w : Writer} {f : Unit → Writer} {x : List UInt8} (hw : Writes w x)
    (hf : Fails (f ())) : Fails (w >>= f) := by
  intro output hlength
  rcases hw.bind_eq f hlength with ⟨-, h⟩ | ⟨hfits, h⟩
  · exact ⟨_, h⟩
  · rw [h]
    exact hf _ (by rwa [List.length_append])

/-! ## Readers -/

/-- The reader reads the value from the bytes, whatever follows. -/
def Reads (r : Reader α) (bytes : List UInt8) (v : α) : Prop :=
  ∀ rest, r ⟨bytes ++ rest⟩ = .ok (v, ⟨rest⟩)

/-- What the reader reads does not depend on what follows. -/
def Local (r : Reader α) : Prop :=
  ∀ (input rest : Decoder) v, r input = .ok (v, rest) →
    ∀ more, r ⟨input.bytes ++ more⟩ = .ok (v, ⟨rest.bytes ++ more⟩)

lemma reader_bind_ok {r : Reader α} {f : α → Reader β} {input mid : Decoder} {a : α}
    (h : r input = .ok (a, mid)) : (r >>= f) input = f a mid := by
  change (r input >>= fun p => f p.1 p.2) = _
  rw [h]
  rfl

lemma reader_bind_error {r : Reader α} {f : α → Reader β} {input : Decoder} {e : String}
    (h : r input = .error e) : (r >>= f) input = .error e := by
  change (r input >>= fun p => f p.1 p.2) = _
  rw [h]
  rfl

/-- What a sequence of readers reads. -/
lemma reader_bind_eq_ok {r : Reader α} {f : α → Reader β} {input rest : Decoder} {b : β} :
    (r >>= f) input = .ok (b, rest) ↔
      ∃ a mid, r input = .ok (a, mid) ∧ f a mid = .ok (b, rest) := by
  constructor
  · intro h
    cases hr : r input with
    | error e =>
      rw [reader_bind_error hr] at h
      cases h
    | ok p =>
      rw [reader_bind_ok hr] at h
      exact ⟨p.1, p.2, rfl, h⟩
  · rintro ⟨a, mid, hr, hf⟩
    rw [reader_bind_ok hr, hf]

lemma reader_pure_eq_ok {a b : α} {input rest : Decoder} :
    (pure a : Reader α) input = .ok (b, rest) ↔ a = b ∧ input = rest := by
  constructor
  · intro h
    exact Prod.mk.inj (Except.ok.inj h)
  · rintro ⟨rfl, rfl⟩
    rfl

lemma not_reader_throw_eq_ok {e : String} {b : α} {input rest : Decoder} :
    ¬ (throw e : Reader α) input = .ok (b, rest) := by
  intro h
  cases h

lemma reads_pure (v : α) : Reads (pure v) [] v := fun _ => rfl

/-- A sequence of readers reads what they read. -/
lemma Reads.bind {r : Reader α} {f : α → Reader β} {x y : List UInt8} {a : α} {b : β}
    (hr : Reads r x a) (hf : Reads (f a) y b) : Reads (r >>= f) (x ++ y) b := by
  intro rest
  rw [List.append_assoc, reader_bind_ok (hr (y ++ rest)), hf rest]

/-- A function of what is read. -/
lemma Reads.map {r : Reader α} {x : List UInt8} {a : α} (hr : Reads r x a) (k : α → β) :
    Reads (do let a ← r; return k a) x (k a) := by
  intro rest
  rw [reader_bind_ok (hr rest)]
  rfl

lemma reader_map_eq_ok {r : Reader α} {k : α → β} {input rest : Decoder} {b : β} :
    (do let a ← r; return k a : Reader β) input = .ok (b, rest) ↔
      ∃ a, r input = .ok (a, rest) ∧ k a = b := by
  constructor
  · intro h
    obtain ⟨a, mid, hr, hpure⟩ := reader_bind_eq_ok.mp h
    obtain ⟨hb, rfl⟩ := reader_pure_eq_ok.mp hpure
    exact ⟨a, hr, hb⟩
  · rintro ⟨a, hr, rfl⟩
    rw [reader_bind_ok hr]
    rfl

lemma local_pure (v : α) : Local (pure v) := by
  intro input rest w h more
  obtain ⟨rfl, rfl⟩ := reader_pure_eq_ok.mp h
  rfl

lemma local_throw (e : String) : Local (throw e : Reader α) :=
  fun _ _ _ h => absurd h not_reader_throw_eq_ok

lemma Local.bind {r : Reader α} {f : α → Reader β} (hr : Local r) (hf : ∀ a, Local (f a)) :
    Local (r >>= f) := by
  intro input rest b h more
  obtain ⟨a, mid, hra, hfb⟩ := reader_bind_eq_ok.mp h
  rw [reader_bind_ok (hr input mid a hra more), hf a mid rest b hfb more]

lemma Local.ite {r r' : Reader α} {p : Prop} [Decidable p] (hr : Local r) (hr' : Local r') :
    Local (if p then r else r') := by
  split
  · exact hr
  · exact hr'

/-- Taking succeeds on the taken bytes followed by the rest. -/
lemma take_eq_ok {n : ℕ} {input rest : Decoder} {bytes : List UInt8} :
    take n input = .ok (bytes, rest) ↔ input.bytes = bytes ++ rest.bytes ∧ bytes.length = n := by
  unfold take
  constructor
  · intro h
    split at h
    · next hn =>
      obtain ⟨rfl, rfl⟩ := Prod.mk.inj (Except.ok.inj h)
      exact ⟨(List.take_append_drop n _).symm, List.length_take_of_le hn⟩
    · cases h
  · rintro ⟨hbytes, rfl⟩
    rw [hbytes, if_pos (by simp), List.take_left, List.drop_left]

lemma local_take (n : ℕ) : Local (take n) := by
  intro input rest bytes h more
  obtain ⟨hbytes, hlength⟩ := take_eq_ok.mp h
  exact take_eq_ok.mpr ⟨by rw [hbytes, List.append_assoc], hlength⟩

lemma reads_take (bytes : List UInt8) : Reads (take bytes.length) bytes bytes :=
  fun _ => take_eq_ok.mpr ⟨rfl, rfl⟩

/-! ## Writers with their readers -/

/-- The bytes take a value across, if what they carry is accepted; otherwise a length in them does
not fit in a `u32`. -/
def Carries (w : Writer) (r : Reader α) (bytes : List UInt8) (accepted : Prop) (v : α) : Prop :=
  (Writes w bytes ∧ (accepted → Reads r bytes v)) ∨ (u32Max < bytes.length ∧ Overflows w)

namespace Carries

variable {w : Writer} {r : Reader α} {x y : List UInt8} {p q : Prop} {a : α} {b : β}

lemma ofReads (hw : Writes w x) (hr : Reads r x a) : Carries w r x p a :=
  .inl ⟨hw, fun _ => hr⟩

lemma mono (h : Carries w r x p a) (hpq : q → p) : Carries w r x q a :=
  h.imp (And.imp_right fun hr hq => hr (hpq hq)) id

/-- Values are carried one after another. -/
lemma bind {f : Unit → Writer} {g : α → Reader β} (h : Carries w r x p a)
    (hnext : Carries (f ()) (g a) y q b) : Carries (w >>= f) (r >>= g) (x ++ y) (p ∧ q) b := by
  have hx : x.length ≤ (x ++ y).length := by simp
  have hy : y.length ≤ (x ++ y).length := by simp
  rcases h with ⟨hw, hr⟩ | ⟨hlong, hw⟩
  · rcases hnext with ⟨hf, hg⟩ | ⟨hlong, hf⟩
    · exact .inl ⟨hw.bind hf, fun hpq => (hr hpq.1).bind (hg hpq.2)⟩
    · exact .inr ⟨hlong.trans_le hy, hw.bind_overflows hf⟩
  · exact .inr ⟨hlong.trans_le hx, hw.bind f⟩

/-- A function of what is carried. -/
lemma map (h : Carries w r x p a) (k : α → β) :
    Carries w (do let a ← r; return k a) x p (k a) :=
  h.imp (And.imp_right fun hr hp => (hr hp).map k) id

lemma bind_fails {f : Unit → Writer} (h : Carries w r x p a) (hf : Fails (f ())) :
    Fails (w >>= f) := by
  rcases h with ⟨hw, -⟩ | ⟨-, hw⟩
  · exact hw.bind_fails hf
  · exact (hw.bind f).fails

end Carries

/-! ## Values that cross the connection -/

/-- What becomes of the values of a type that cross the connection. -/
@[ext]
structure Transfer (α : Type) where
  /-- What is read for a value. -/
  received : α → α
  /-- Whether the value can be written. -/
  Sendable : α → Prop
  /-- Whether what was written is accepted. -/
  Accepted : α → Prop

/-- All values cross unchanged. -/
def Transfer.exact : Transfer α := ⟨id, fun _ => True, fun _ => True⟩

/-- The bytes are what the writer makes of the value and the reader takes for it. -/
structure Coding (w : Writer) (r : Reader α) (t : Transfer α) (v : α) (bytes : List UInt8) :
    Prop where
  carries : t.Sendable v → Carries w r bytes (t.Accepted v) (t.received v)
  fails : ¬ t.Sendable v → Fails w
  /-- The value is read from these bytes only. -/
  only : ∀ input rest : Decoder, r input = .ok (v, rest) →
    input.bytes = bytes ++ rest.bytes ∧ t.Sendable v ∧ t.Accepted v ∧ t.received v = v

/-- The bytes are the encoding of the value. -/
abbrev Encoding [Wire α] (t : Transfer α) (v : α) (bytes : List UInt8) : Prop :=
  Coding (write v) read t v bytes

/-- The laws of the fields of a type, of which there may be none. -/
structure FieldLaws (α : Type) [Wire α] (t : Transfer α) : Prop where
  encoding : ∀ v, ∃ bytes, Encoding t v bytes
  isLocal : Local (read : Reader α)

/-- The laws of a type, each of whose values takes at least one byte. -/
structure WireLaws (α : Type) [Wire α] (t : Transfer α) : Prop where
  encoding : ∀ v, ∃ bytes, bytes ≠ [] ∧ Encoding t v bytes
  isLocal : Local (read : Reader α)

lemma WireLaws.fields [Wire α] {t : Transfer α} (h : WireLaws α t) : FieldLaws α t := by
  refine ⟨fun v => ?_, h.isLocal⟩
  obtain ⟨bytes, -, hbytes⟩ := h.encoding v
  exact ⟨bytes, hbytes⟩

/-- A type whose values cross unchanged. -/
class LawfulWire (α : Type) [Wire α] : Prop where
  laws : WireLaws α .exact

/-- A list of fields that cross unchanged. -/
class LawfulFields (α : Type) [Wire α] : Prop where
  laws : FieldLaws α .exact

instance [Wire α] [LawfulWire α] : LawfulFields α := ⟨LawfulWire.laws.fields⟩

/-- The coding of a value that crosses unchanged. -/
lemma Coding.ofExact {w : Writer} {r : Reader α} {v : α} {bytes : List UInt8}
    (hcarries : Carries w r bytes True v)
    (honly : ∀ input rest : Decoder, r input = .ok (v, rest) →
      input.bytes = bytes ++ rest.bytes) : Coding w r .exact v bytes :=
  ⟨fun _ => hcarries, fun h => absurd trivial h,
    fun input rest h => ⟨honly input rest h, trivial, trivial, rfl⟩⟩

/-! ## Numbers -/

/-- A number is read from its bytes. -/
lemma read_wireNumber_eq_ok {size : ℕ} {toNat : α → ℕ} {ofNat : ℕ → α}
    (hlt : ∀ v, toNat v < 256 ^ size) (hofNat : ∀ v, ofNat (toNat v) = v)
    (htoNat : ∀ n < 256 ^ size, toNat (ofNat n) = n) {input rest : Decoder} {v : α} :
    (wireNumber size toNat ofNat).read input = .ok (v, rest) ↔
      input.bytes = leBytes size (toNat v) ++ rest.bytes := by
  refine reader_map_eq_ok.trans ⟨?_, fun h => ?_⟩
  · rintro ⟨bytes, htake, rfl⟩
    obtain ⟨hbytes, rfl⟩ := take_eq_ok.mp htake
    rw [hbytes, htoNat _ (leValue_lt bytes), leBytes_leValue]
  · refine ⟨leBytes size (toNat v), take_eq_ok.mpr ⟨h, length_leBytes _ _⟩, ?_⟩
    rw [leValue_leBytes_of_lt (hlt v), hofNat]

/-- Numbers cross unchanged when their bytes determine them. -/
lemma wireLaws_wireNumber (size : ℕ) (toNat : α → ℕ) (ofNat : ℕ → α) (hsize : 0 < size)
    (hlt : ∀ v, toNat v < 256 ^ size) (hofNat : ∀ v, ofNat (toNat v) = v)
    (htoNat : ∀ n < 256 ^ size, toNat (ofNat n) = n) :
    @WireLaws α (wireNumber size toNat ofNat) .exact := by
  let _ : Wire α := wireNumber size toNat ofNat
  refine ⟨fun v => ⟨leBytes size (toNat v), ?_, .ofExact ?_ ?_⟩, ?_⟩
  · refine List.ne_nil_of_length_pos ?_
    rwa [length_leBytes]
  · refine .ofReads (writes_append _) fun rest => ?_
    exact (read_wireNumber_eq_ok hlt hofNat htoNat).mpr rfl
  · exact fun input rest h => (read_wireNumber_eq_ok hlt hofNat htoNat).mp h
  · exact (local_take size).bind fun bytes => local_pure _

instance : LawfulWire UInt8 :=
  ⟨wireLaws_wireNumber 1 UInt8.toNat UInt8.ofNat (by decide) UInt8.toNat_lt
    (fun _ => UInt8.ofNat_toNat) fun _ h => UInt8.toNat_ofNat_of_lt' h⟩

instance : LawfulWire UInt16 :=
  ⟨wireLaws_wireNumber 2 UInt16.toNat UInt16.ofNat (by decide) UInt16.toNat_lt
    (fun _ => UInt16.ofNat_toNat) fun _ h => UInt16.toNat_ofNat_of_lt' h⟩

instance : LawfulWire UInt32 :=
  ⟨wireLaws_wireNumber 4 UInt32.toNat UInt32.ofNat (by decide) UInt32.toNat_lt
    (fun _ => UInt32.ofNat_toNat) fun _ h => UInt32.toNat_ofNat_of_lt' h⟩

instance : LawfulWire UInt64 :=
  ⟨wireLaws_wireNumber 8 UInt64.toNat UInt64.ofNat (by decide) UInt64.toNat_lt
    (fun _ => UInt64.ofNat_toNat) fun _ h => UInt64.toNat_ofNat_of_lt' h⟩

instance : LawfulWire Int32 where
  laws := by
    refine wireLaws_wireNumber 4 (fun v => v.toUInt32.toNat) (fun n => (UInt32.ofNat n).toInt32)
      (by decide) (fun v => v.toUInt32.toNat_lt) (fun v => ?_) fun n h => ?_
    · rw [UInt32.ofNat_toNat, Int32.toInt32_toUInt32]
    · rw [UInt32.toUInt32_toInt32, UInt32.toNat_ofNat_of_lt' h]

instance : LawfulWire Int64 where
  laws := by
    refine wireLaws_wireNumber 8 (fun v => v.toUInt64.toNat) (fun n => (UInt64.ofNat n).toInt64)
      (by decide) (fun v => v.toUInt64.toNat_lt) (fun v => ?_) fun n h => ?_
    · rw [UInt64.ofNat_toNat, Int64.toInt64_toUInt64]
    · rw [UInt64.toUInt64_toInt64, UInt64.toNat_ofNat_of_lt' h]

instance : LawfulWire F64 where
  laws := by
    refine wireLaws_wireNumber 8 (fun v : F64 => v.bits.toNat) (fun n => ⟨UInt64.ofNat n⟩)
      (by decide) (fun v => v.bits.toNat_lt) (fun v => ?_) fun n h => ?_
    · rw [UInt64.ofNat_toNat]
    · rw [UInt64.toNat_ofNat_of_lt' h]

/-- A byte is read from the first byte. -/
lemma read_byte_eq_ok {input rest : Decoder} {byte : UInt8} :
    (read : Reader UInt8) input = .ok (byte, rest) ↔ input.bytes = byte :: rest.bytes := by
  refine (read_wireNumber_eq_ok UInt8.toNat_lt (fun _ => UInt8.ofNat_toNat)
    fun _ h => UInt8.toNat_ofNat_of_lt' h).trans ?_
  have hbyte : leBytes 1 byte.toNat = [byte] := by
    rw [leBytes, leBytes, UInt8.ofNat_toNat]
  rw [hbyte]
  rfl

lemma writes_byte (byte : UInt8) : Writes (write byte) [byte] := by
  have hbyte : leBytes 1 byte.toNat = [byte] := by
    rw [leBytes, leBytes, UInt8.ofNat_toNat]
  rw [← hbyte]
  exact writes_append _

lemma reads_byte (byte : UInt8) : Reads read [byte] byte := fun _ => read_byte_eq_ok.mpr rfl

lemma carries_byte (byte : UInt8) : Carries (write byte) read [byte] True byte :=
  .ofReads (writes_byte byte) (reads_byte byte)

lemma local_byte : Local (read : Reader UInt8) := (LawfulWire.laws (α := UInt8)).isLocal

/-! ## Lengths and bytes -/

/-- A length is read from its bytes, when as many bytes follow. -/
lemma readLength_eq_ok {input rest : Decoder} {n : ℕ} :
    readLength input = .ok (n, rest) ↔
      input.bytes = leBytes 4 n ++ rest.bytes ∧ n ≤ u32Max ∧ n ≤ rest.bytes.length := by
  have hread : ∀ {v : UInt32} {mid : Decoder}, (read : Reader UInt32) input = .ok (v, mid) ↔
      input.bytes = leBytes 4 v.toNat ++ mid.bytes :=
    read_wireNumber_eq_ok UInt32.toNat_lt (fun _ => UInt32.ofNat_toNat)
      fun _ h => UInt32.toNat_ofNat_of_lt' h
  have hcheck : ∀ (v : UInt32) (mid : Decoder),
      (do
        let input ← get
        if v.toNat ≤ input.bytes.length then return v.toNat
        else throw "invalid monitor collection length" : Reader ℕ) mid = .ok (n, rest) ↔
      v.toNat ≤ mid.bytes.length ∧ v.toNat = n ∧ mid = rest := by
    intro v mid
    rw [reader_bind_ok (rfl : (get : Reader Decoder) mid = .ok (mid, mid))]
    split
    · next h => exact ⟨fun hok => ⟨h, reader_pure_eq_ok.mp hok⟩,
        fun hok => reader_pure_eq_ok.mpr hok.2⟩
    · next h => exact ⟨fun hok => absurd hok not_reader_throw_eq_ok, fun hok => absurd hok.1 h⟩
  refine reader_bind_eq_ok.trans ⟨?_, ?_⟩
  · rintro ⟨v, mid, hv, hn⟩
    obtain ⟨hle, rfl, rfl⟩ := (hcheck v mid).mp hn
    exact ⟨hread.mp hv, Nat.le_sub_one_of_lt v.toNat_lt, hle⟩
  · rintro ⟨hbytes, hmax, hle⟩
    have hn : (UInt32.ofNat n).toNat = n :=
      UInt32.toNat_ofNat_of_lt' (Nat.lt_of_le_of_lt hmax (by decide))
    refine ⟨UInt32.ofNat n, rest, hread.mpr (by rw [hn, hbytes]), ?_⟩
    exact (hcheck _ _).mpr ⟨by rwa [hn], hn, rfl⟩

lemma local_readLength : Local readLength := by
  intro input rest n h more
  obtain ⟨hbytes, hmax, hle⟩ := readLength_eq_ok.mp h
  refine readLength_eq_ok.mpr ⟨by rw [hbytes, List.append_assoc], hmax, ?_⟩
  rw [List.length_append]
  omega

/-- A length is written, unless it does not fit in a `u32`. -/
lemma writes_writeLength {n : ℕ} (h : n ≤ u32Max) : Writes (writeLength n) (leBytes 4 n) := by
  have hn : (UInt32.ofNat n).toNat = n :=
    UInt32.toNat_ofNat_of_lt' (Nat.lt_of_le_of_lt h (by decide))
  intro output _
  rw [writeLength, if_pos h, ← hn, UInt32.ofNat_toNat]
  rfl

lemma overflows_writeLength {n : ℕ} (h : u32Max < n) : Overflows (writeLength n) := by
  intro output _
  rw [writeLength, if_neg (Nat.not_le_of_lt h)]
  rfl

/-- What follows its length is read with it, if it has at least so many bytes. -/
lemma Reads.withLength {n : ℕ} {g : ℕ → Reader α} {x : List UInt8} {v : α} (hmax : n ≤ u32Max)
    (hn : n ≤ x.length) (h : Reads (g n) x v) :
    Reads (readLength >>= g) (leBytes 4 n ++ x) v := by
  intro rest
  have hlength : readLength ⟨leBytes 4 n ++ x ++ rest⟩ = .ok (n, ⟨x ++ rest⟩) := by
    refine readLength_eq_ok.mpr ⟨List.append_assoc _ _ _, hmax, ?_⟩
    rw [List.length_append]
    omega
  rw [reader_bind_ok hlength]
  exact h rest

/-- What follows its length is carried with it, if it has at least so many bytes. -/
lemma Carries.withLength {n : ℕ} {f : Unit → Writer} {g : ℕ → Reader α} {x : List UInt8}
    {p : Prop} {v : α} (hn : n ≤ x.length) (h : Carries (f ()) (g n) x p v) :
    Carries (writeLength n >>= f) (readLength >>= g) (leBytes 4 n ++ x) p v := by
  by_cases hmax : n ≤ u32Max
  · rcases h with ⟨hf, hg⟩ | ⟨hlong, hf⟩
    · exact .inl ⟨(writes_writeLength hmax).bind hf, fun hp => (hg hp).withLength hmax hn⟩
    · refine .inr ⟨?_, (writes_writeLength hmax).bind_overflows hf⟩
      rw [List.length_append]
      omega
  · have hlong := Nat.lt_of_not_le hmax
    refine .inr ⟨?_, (overflows_writeLength hlong).bind f⟩
    rw [List.length_append]
    omega

lemma fails_withLength (n : ℕ) {f : Unit → Writer} (h : Fails (f ())) :
    Fails (writeLength n >>= f) := by
  by_cases hmax : n ≤ u32Max
  · exact (writes_writeLength hmax).bind_fails h
  · exact ((overflows_writeLength (Nat.lt_of_not_le hmax)).bind f).fails

lemma carries_blob (bytes : List UInt8) :
    Carries (writeBlob bytes) readBlob (leBytes 4 bytes.length ++ bytes) True bytes :=
  .withLength le_rfl (.ofReads (writes_append bytes) (reads_take bytes))

/-- Bytes are read from their length and themselves only. -/
lemma readBlob_eq_ok {input rest : Decoder} {bytes : List UInt8}
    (h : readBlob input = .ok (bytes, rest)) :
    input.bytes = leBytes 4 bytes.length ++ bytes ++ rest.bytes := by
  obtain ⟨n, mid, hlength, htake⟩ := reader_bind_eq_ok.mp h
  obtain ⟨hmid, rfl⟩ := take_eq_ok.mp htake
  obtain ⟨hbytes, -, -⟩ := readLength_eq_ok.mp hlength
  rw [hbytes, hmid, List.append_assoc]

lemma local_readBlob : Local readBlob := local_readLength.bind local_take

end Procinsh.Ipc
