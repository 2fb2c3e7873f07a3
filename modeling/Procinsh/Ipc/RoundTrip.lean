import Procinsh.Ipc.Schema

/-!
# Round trips of the wire schema

What `encode` writes, `decode` reads, and `decode` accepts nothing else.  A value has one encoding:
no other bytes are decoded as it, and no encoding is a proper prefix of another one.
-/

namespace Procinsh.Ipc

variable {α β : Type}

/-! ## Encoding -/

/-- What a value is written as is its encoding, if it fits. -/
lemma Writes.encode_eq [Wire α] {v : α} {bytes : List UInt8} (h : Writes (write v) bytes)
    (limit : ℕ) : encode v limit =
      if bytes.length ≤ min limit u32Max then .ok bytes else .error limitExceeded := by
  let output : Encoder := ⟨[], min limit u32Max⟩
  have hempty : output.bytes.length ≤ output.limit := Nat.zero_le _
  change (write v output >>= fun p => pure p.2.bytes) = _
  rw [h output hempty]
  by_cases hfits : bytes.length ≤ min limit u32Max
  · rw [if_pos hfits, append_of_le (by simpa [output] using hfits)]
    rfl
  · have hlt := Nat.lt_of_not_le hfits
    rw [if_neg hfits, append_of_lt hempty (by simpa [output] using hlt)]
    rfl

/-- A value that can be sent is encoded as its bytes, if they fit. -/
lemma Coding.encode_eq [Wire α] {t : Transfer α} {v : α} {bytes : List UInt8}
    (h : Encoding t v bytes) (hsend : t.Sendable v) (limit : ℕ) :
    encode v limit =
      if bytes.length ≤ min limit u32Max then .ok bytes else .error limitExceeded := by
  rcases h.carries hsend with ⟨hwrites, -⟩ | ⟨hlong, hover⟩
  · exact hwrites.encode_eq limit
  · rw [if_neg (by omega)]
    change (write v ⟨[], min limit u32Max⟩ >>= fun p => pure p.2.bytes) = _
    rw [hover _ (Nat.zero_le _)]
    rfl

/-- A value that cannot be sent is not encoded. -/
lemma Coding.encode_eq_error [Wire α] {t : Transfer α} {v : α} {bytes : List UInt8}
    (h : Encoding t v bytes) (hsend : ¬ t.Sendable v) (limit : ℕ) :
    ∃ e, encode v limit = .error e := by
  obtain ⟨e, he⟩ := h.fails hsend ⟨[], min limit u32Max⟩ (Nat.zero_le _)
  refine ⟨e, ?_⟩
  change (write v _ >>= fun p => pure p.2.bytes) = _
  rw [he]
  rfl

/-- Bytes are decoded when they are read to their end. -/
lemma decode_eq_ok [Wire α] {bytes : List UInt8} {v : α} :
    decode α bytes = .ok v ↔ (read : Reader α) ⟨bytes⟩ = .ok (v, ⟨[]⟩) := by
  change ((read : Reader α) ⟨bytes⟩ >>= fun p =>
    if p.2.bytes = [] then pure p.1 else throw "trailing monitor bytes") = _ ↔ _
  cases hread : (read : Reader α) ⟨bytes⟩ with
  | error e => exact iff_of_false (fun h => by cases h) fun h => by cases h
  | ok p =>
    obtain ⟨w, ⟨rest⟩⟩ := p
    change (if rest = [] then pure w else throw "trailing monitor bytes") = _ ↔ _
    by_cases hrest : rest = []
    · rw [if_pos hrest, hrest]
      constructor
      · intro h
        rw [Except.ok.inj h]
      · intro h
        rw [(Prod.mk.inj (Except.ok.inj h)).1]
        rfl
    · rw [if_neg hrest]
      refine iff_of_false (fun h => by cases h) fun h => hrest ?_
      exact Decoder.mk.inj (Prod.mk.inj (Except.ok.inj h)).2

/-- A rejected value is not decoded. -/
lemma decode_eq_error [Wire α] {bytes : List UInt8} {e : String}
    (h : (read : Reader α) ⟨bytes⟩ = .error e) : decode α bytes = .error e := by
  change ((read : Reader α) ⟨bytes⟩ >>= _) = _
  rw [h]
  rfl

/-- Each value of the schema has one encoding, or cannot be sent.  The encoding is what `encode`
gives, if it fits, and `decode` reads from it what the receiver gets. -/
theorem encode_decode_of_schema [Target] [Wire α] {t : Transfer α} (h : Schema α t) (v : α) :
    (¬ t.Sendable v → ∀ limit, ∃ e, encode v limit = .error e) ∧
    (t.Sendable v → ∃ bytes : List UInt8,
      (Writes (write v) bytes ∨ (u32Max < bytes.length ∧ Overflows (write v))) ∧
      (∀ limit, encode v limit =
        if bytes.length ≤ min limit u32Max then .ok bytes else .error limitExceeded) ∧
      (t.Accepted v → bytes.length ≤ u32Max → decode α bytes = .ok (t.received v))) := by
  obtain ⟨bytes, -, hbytes⟩ := h.laws.encoding v
  refine ⟨fun hsend limit => hbytes.encode_eq_error hsend limit, fun hsend => ?_⟩
  refine ⟨bytes, (hbytes.carries hsend).imp And.left id, hbytes.encode_eq hsend,
    fun haccept hlength => ?_⟩
  rcases hbytes.carries hsend with ⟨-, hreads⟩ | ⟨hlong, -⟩
  · have hread := hreads haccept []
    rw [List.append_nil] at hread
    exact decode_eq_ok.mpr hread
  · exact absurd hlength (Nat.not_le_of_lt hlong)

/-- What an encoding says: it is not empty and fits, and it is decoded as what is received. -/
theorem encode_eq_ok_of_schema [Target] [Wire α] {t : Transfer α} (h : Schema α t) {v : α} {limit : ℕ}
    {bytes : List UInt8} (hencode : encode v limit = .ok bytes) :
    bytes ≠ [] ∧ bytes.length ≤ min limit u32Max ∧ t.Sendable v ∧
      (t.Accepted v → decode α bytes = .ok (t.received v)) := by
  obtain ⟨written, hne, hwritten⟩ := h.laws.encoding v
  by_cases hsend : t.Sendable v
  · rw [hwritten.encode_eq hsend] at hencode
    split at hencode
    · next hlength =>
      obtain rfl := Except.ok.inj hencode
      refine ⟨hne, hlength, hsend, fun haccept => ?_⟩
      rcases hwritten.carries hsend with ⟨-, hreads⟩ | ⟨hlong, -⟩
      · have hread := hreads haccept []
        rw [List.append_nil] at hread
        exact decode_eq_ok.mpr hread
      · exact absurd (hlength.trans (Nat.min_le_right _ _)) (Nat.not_le_of_lt hlong)
    · cases hencode
  · obtain ⟨e, he⟩ := hwritten.encode_eq_error hsend limit
    rw [he] at hencode
    cases hencode

/-- A live sample is received without its context. -/
theorem encode_decode_of_liveSample :
    let _ : Target := ⟨false⟩
    let sample : LiveSample := ⟨7, none, some 5, none, none, none, 0, [], none, [], none,
      some ⟨1, []⟩, [], none, "stopped", none⟩
    ∃ bytes, (∀ limit, encode sample limit =
        if bytes.length ≤ min limit u32Max then .ok bytes else .error limitExceeded) ∧
      (bytes.length ≤ u32Max →
        decode LiveSample bytes = .ok { sample with context := none }) := by
  intro _ sample
  have h := encode_decode_of_schema .liveSample sample
  obtain ⟨bytes, -, hencode, hdecode⟩ := h.2 fun _ hr => absurd hr (Option.not_mem_none _)
  exact ⟨bytes, hencode, hdecode trivial⟩

/-- A part of a file that is larger than what a receiver accepts. -/
def largeChunk : FileChunk := ⟨0, List.replicate (maxReadSize + 1) 0⟩

/-- A 64-bit number is read from its bytes. -/
lemma read_uint64_eq_ok {input rest : Decoder} {v : UInt64} :
    (read : Reader UInt64) input = .ok (v, rest) ↔
      input.bytes = leBytes 8 v.toNat ++ rest.bytes :=
  read_wireNumber_eq_ok UInt64.toNat_lt (fun _ => UInt64.ofNat_toNat)
    fun _ h => UInt64.toNat_ofNat_of_lt' h

/-- The bytes that the large part of a file is written as. -/
def largeChunkBytes : List UInt8 :=
  leBytes 8 0 ++ (leBytes 4 largeChunk.bytes.length ++ largeChunk.bytes)

lemma length_largeChunk : largeChunk.bytes.length = maxReadSize + 1 := List.length_replicate

lemma encode_largeChunk : encode largeChunk u32Max = .ok largeChunkBytes := by
  have hlength : largeChunk.bytes.length ≤ u32Max := by
    rw [length_largeChunk]
    decide
  have hwrites : Writes (write largeChunk) largeChunkBytes :=
    (writes_append _).bind ((writes_writeLength hlength).bind (writes_append _))
  rw [hwrites.encode_eq, if_pos]
  rw [largeChunkBytes, List.length_append, List.length_append, length_leBytes, length_leBytes,
    length_largeChunk]
  decide

lemma decode_largeChunk :
    decode FileChunk largeChunkBytes = .error "mapped file read exceeds limit" := by
  have hlength : largeChunk.bytes.length ≤ u32Max := by
    rw [length_largeChunk]
    decide
  have hoffset : (read : Reader UInt64) ⟨largeChunkBytes⟩ =
      .ok (0, ⟨leBytes 4 largeChunk.bytes.length ++ largeChunk.bytes⟩) :=
    read_uint64_eq_ok.mpr rfl
  have hblob : readBlob ⟨leBytes 4 largeChunk.bytes.length ++ largeChunk.bytes⟩ =
      .ok (largeChunk.bytes, ⟨[]⟩) := by
    have h := (reads_take largeChunk.bytes).withLength hlength le_rfl []
    rwa [List.append_nil] at h
  refine decode_eq_error ((reader_bind_ok hoffset).trans ((reader_bind_ok hblob).trans ?_))
  rw [length_largeChunk]
  rfl

/-- A register set that does not have the native number of registers is not encoded, although its
fields are; and a large part of a file is encoded but not decoded. -/
theorem not_encode_of_registerCount :
    let _ : Target := ⟨false⟩
    encode (⟨[], false, none⟩ : RegisterSet) u32Max = .error "Invalid native register count" ∧
      encode (([], false, none) : List UInt64 × Bool × Option UInt64) u32Max =
        .ok [0, 0, 0, 0, 0, 0] ∧
      encode largeChunk u32Max = .ok largeChunkBytes ∧
      decode FileChunk largeChunkBytes = .error "mapped file read exceeds limit" := by
  intro _
  exact ⟨by decide, by decide, encode_largeChunk, decode_largeChunk⟩

/-! ## Decoding -/

/-- The reader rejects the bytes. -/
def Rejects (r : Reader α) (input : Decoder) : Prop := ∃ e, r input = .error e

lemma Rejects.bind {r : Reader α} {input : Decoder} (h : Rejects r input) (f : α → Reader β) :
    Rejects (r >>= f) input := by
  obtain ⟨e, he⟩ := h
  exact ⟨e, reader_bind_error he⟩

lemma Rejects.after {r : Reader α} {f : α → Reader β} {input mid : Decoder} {a : α}
    (h : Rejects (f a) mid) (hr : r input = .ok (a, mid)) : Rejects (r >>= f) input := by
  rwa [Rejects, reader_bind_ok hr]

/-- After a tag. -/
lemma Rejects.afterByte {f : UInt8 → Reader β} {byte : UInt8} {rest : List UInt8}
    (h : Rejects (f byte) ⟨rest⟩) : Rejects (read >>= f) ⟨byte :: rest⟩ :=
  h.after (read_byte_eq_ok.mpr rfl)

/-- A length is rejected when fewer bytes follow. -/
lemma rejects_readLength {n : ℕ} {rest : List UInt8} (hn : n ≤ u32Max)
    (hshort : rest.length < n) : Rejects readLength ⟨leBytes 4 n ++ rest⟩ := by
  cases hlength : readLength ⟨leBytes 4 n ++ rest⟩ with
  | error e => exact ⟨e, hlength⟩
  | ok p =>
    obtain ⟨m, mid⟩ := p
    obtain ⟨hbytes, hm, hle⟩ := readLength_eq_ok.mp hlength
    have heq : (leBytes 4 n).length = (leBytes 4 m).length := by
      rw [length_leBytes, length_leBytes]
    obtain ⟨hnm, hrest⟩ := List.append_inj hbytes heq
    have hvalue := congrArg leValue hnm
    rw [leValue_leBytes_of_lt (Nat.lt_of_le_of_lt hn (by decide)),
      leValue_leBytes_of_lt (Nat.lt_of_le_of_lt hm (by decide))] at hvalue
    rw [hrest, hvalue] at hshort
    exact absurd hle (Nat.not_le_of_lt hshort)

/-- A text is rejected when it is not valid UTF-8. -/
lemma rejects_text {bytes rest : List UInt8} (hlength : bytes.length ≤ u32Max)
    (hutf8 : ¬ bytes.toByteArray.IsValidUTF8) :
    Rejects (read : Reader String) ⟨leBytes 4 bytes.length ++ (bytes ++ rest)⟩ := by
  have hblob : readBlob ⟨leBytes 4 bytes.length ++ (bytes ++ rest)⟩ = .ok (bytes, ⟨rest⟩) := by
    rw [← List.append_assoc]
    exact (reads_take bytes).withLength hlength le_rfl rest
  refine Rejects.after ⟨"invalid utf-8 sequence", ?_⟩ hblob
  have hnone : String.fromUTF8? bytes.toByteArray = none := dif_neg hutf8
  rw [hnone]
  rfl

/-- Values are rejected together when one of them is. -/
lemma rejects_readMany [Wire α] {n k : ℕ} {input mid : Decoder} {vs : List α} (hk : k < n)
    (hread : readMany k input = .ok (vs, mid)) (h : Rejects (read : Reader α) mid) :
    Rejects (readMany n : Reader (List α)) input := by
  induction k generalizing n input vs with
  | zero =>
    obtain ⟨m, rfl⟩ := Nat.exists_eq_succ_of_ne_zero (Nat.ne_of_gt hk)
    obtain ⟨-, rfl⟩ := reader_pure_eq_ok.mp hread
    exact h.bind _
  | succ k ih =>
    obtain ⟨m, rfl⟩ := Nat.exists_eq_succ_of_ne_zero (Nat.ne_of_gt (Nat.zero_lt_of_lt hk))
    obtain ⟨v, first, hfirst, hrest⟩ := reader_bind_eq_ok.mp hread
    obtain ⟨us, hus, -⟩ := reader_map_eq_ok.mp hrest
    refine Rejects.after ?_ hfirst
    exact (ih (Nat.lt_of_succ_lt_succ hk) hus).bind _

/-- Bytes that cannot be read as a value of the type: somewhere in them is a boolean other than 0
and 1, an unknown tag, a length greater than the number of bytes that follow, or a text that is not
valid UTF-8. -/
inductive Malformed [Target] : (α : Type) → [Wire α] → List UInt8 → Prop
  | bool {byte : UInt8} {rest : List UInt8} (hzero : byte ≠ 0) (hone : byte ≠ 1) :
      Malformed Bool (byte :: rest)
  | text {bytes rest : List UInt8} (hlength : bytes.length ≤ u32Max)
      (hutf8 : ¬ bytes.toByteArray.IsValidUTF8) :
      Malformed String (leBytes 4 bytes.length ++ (bytes ++ rest))
  | textLength {n : ℕ} {rest : List UInt8} (hn : n ≤ u32Max) (hshort : rest.length < n) :
      Malformed String (leBytes 4 n ++ rest)
  | listLength {α : Type} [Wire α] {n : ℕ} {rest : List UInt8} (hn : n ≤ u32Max)
      (hshort : rest.length < n) : Malformed (List α) (leBytes 4 n ++ rest)
  | element {α : Type} [Wire α] {n k : ℕ} {bytes : List UInt8} {first mid : Decoder}
      {vs : List α} (hlength : readLength ⟨bytes⟩ = .ok (n, first)) (hk : k < n)
      (hread : readMany k first = .ok (vs, mid)) (h : Malformed α mid.bytes) :
      Malformed (List α) bytes
  | arrayElement {α : Type} [Wire α] {n k : ℕ} {bytes : List UInt8} {mid : Decoder}
      {vs : List α} (hk : k < n) (hread : readMany k ⟨bytes⟩ = .ok (vs, mid))
      (h : Malformed α mid.bytes) : Malformed (List.Vector α n) bytes
  | optionTag {α : Type} [Wire α] {tag : UInt8} {rest : List UInt8} (hzero : tag ≠ 0)
      (hone : tag ≠ 1) : Malformed (Option α) (tag :: rest)
  | some {α : Type} [Wire α] {rest : List UInt8} (h : Malformed α rest) :
      Malformed (Option α) (1 :: rest)
  | resultTag {α ε : Type} [Wire α] [Wire ε] {tag : UInt8} {rest : List UInt8}
      (hzero : tag ≠ 0) (hone : tag ≠ 1) : Malformed (Except ε α) (tag :: rest)
  | ok {α ε : Type} [Wire α] [Wire ε] {rest : List UInt8} (h : Malformed α rest) :
      Malformed (Except ε α) (0 :: rest)
  | error {α ε : Type} [Wire α] [Wire ε] {rest : List UInt8} (h : Malformed ε rest) :
      Malformed (Except ε α) (1 :: rest)
  | ipFamily {tag : UInt8} {rest : List UInt8} (h4 : tag ≠ 4) (h6 : tag ≠ 6) :
      Malformed IpAddr (tag :: rest)
  | socketAddr {bytes : List UInt8} (h : Malformed IpAddr bytes) : Malformed SocketAddr bytes
  | first {α β : Type} [Wire α] [Wire β] {bytes : List UInt8} (h : Malformed α bytes) :
      Malformed (α × β) bytes
  | second {α β : Type} [Wire α] [Wire β] {bytes : List UInt8} {a : α} {mid : Decoder}
      (hread : read ⟨bytes⟩ = .ok (a, mid)) (h : Malformed β mid.bytes) : Malformed (α × β) bytes
  | struct {α β : Type} [Wire β] {fields : α → β} {make : β → α} {bytes : List UInt8}
      (h : Malformed β bytes) : @Malformed _ α (wireStruct fields make) bytes
  | enumTag {α : Type} {variants : List (Variant α)} {tag : UInt8} {rest : List UInt8}
      (htag : tag ∉ variants.map Variant.tag) : @Malformed _ α (wireEnum variants) (tag :: rest)
  | variant {α : Type} {variants : List (Variant α)} {c : Variant α} {rest : List UInt8}
      (hfind : variants.find? (fun d => d.tag = c.tag) = .some c)
      (h : @Malformed _ c.Fields c.wire rest) :
      @Malformed _ α (wireEnum variants) (c.tag :: rest)
  | chunkLength {offset : UInt64} {n : ℕ} {rest : List UInt8} (hn : n ≤ u32Max)
      (hshort : rest.length < n) :
      Malformed FileChunk (leBytes 8 offset.toNat ++ (leBytes 4 n ++ rest))
  | registers {bytes : List UInt8}
      (h : Malformed (List UInt64 × Bool × Option UInt64) bytes) : Malformed RegisterSet bytes

/-- Malformed bytes are rejected. -/
lemma Malformed.rejects [Target] [Wire α] {bytes : List UInt8} (h : Malformed α bytes) :
    Rejects (read : Reader α) ⟨bytes⟩ := by
  induction h with
  | bool hzero hone =>
    refine Rejects.afterByte ⟨"invalid monitor boolean", ?_⟩
    rw [if_neg hzero, if_neg hone]
    rfl
  | text hlength hutf8 => exact rejects_text hlength hutf8
  | textLength hn hshort => exact ((rejects_readLength hn hshort).bind _).bind _
  | listLength hn hshort => exact (rejects_readLength hn hshort).bind _
  | element hlength hk hread _ ih => exact (rejects_readMany hk hread ih).after hlength
  | arrayElement hk hread _ ih => exact (rejects_readMany hk hread ih).bind _
  | optionTag hzero hone =>
    refine Rejects.afterByte ⟨"invalid monitor option", ?_⟩
    rw [if_neg hzero, if_neg hone]
    rfl
  | some _ ih => exact Rejects.afterByte (ih.bind _)
  | resultTag hzero hone =>
    refine Rejects.afterByte ⟨"invalid monitor result", ?_⟩
    rw [if_neg hzero, if_neg hone]
    rfl
  | ok _ ih => exact Rejects.afterByte (ih.bind _)
  | error _ ih => exact Rejects.afterByte (ih.bind _)
  | ipFamily h4 h6 =>
    refine Rejects.afterByte ⟨"invalid monitor IP family", ?_⟩
    rw [if_neg h4, if_neg h6]
    rfl
  | socketAddr _ ih => exact ih.bind _
  | first _ ih => exact ih.bind _
  | second hread _ ih =>
    refine Rejects.after ?_ hread
    exact ih.bind _
  | struct _ ih => exact ih.bind _
  | enumTag htag =>
    refine Rejects.afterByte ⟨"invalid monitor enum tag", ?_⟩
    rw [List.find?_eq_none.mpr fun c hc heq => htag ?_]
    · rfl
    · rw [← of_decide_eq_true heq]
      exact List.mem_map_of_mem hc
  | variant hfind _ ih =>
    refine Rejects.afterByte ?_
    rw [hfind]
    exact ih.bind _
  | chunkLength hn hshort =>
    refine Rejects.after ?_ (read_uint64_eq_ok.mpr rfl)
    exact ((rejects_readLength hn hshort).bind _).bind _
  | registers _ ih =>
    rw [RegisterSet.read_eq]
    exact ih.bind _

/-- The bytes from which a value of the schema is decoded are its encoding; bytes are decoded as
one value and no longer bytes that begin with them are decoded; and malformed bytes are rejected. -/
theorem decode_canonical_of_schema [Target] [Wire α] {t : Transfer α} (h : Schema α t) :
    (∀ bytes v, decode α bytes = .ok v → bytes.length ≤ u32Max →
      ∀ limit, bytes.length ≤ limit → encode v limit = .ok bytes) ∧
    (∀ bytes bytes' v, decode α bytes = .ok v → decode α bytes' = .ok v → bytes = bytes') ∧
    (∀ bytes more v w, decode α bytes = .ok v → decode α (bytes ++ more) = .ok w → more = []) ∧
    (∀ (input rest : Decoder) v, (read : Reader α) input = .ok (v, rest) →
      rest.bytes <:+ input.bytes) ∧
    (∀ bytes, Malformed α bytes → ∃ e, decode α bytes = .error e) := by
  refine ⟨fun bytes v hdecode hlength limit hlimit => ?_, fun bytes bytes' v hdecode hdecode' => ?_,
    fun bytes more v w hdecode hdecode' => ?_, fun input rest v hread => ?_, fun bytes hbad => ?_⟩
  · obtain ⟨x, -, hx⟩ := h.laws.encoding v
    obtain ⟨hbytes, hsend, -, -⟩ := hx.only _ _ (decode_eq_ok.mp hdecode)
    rw [List.append_nil] at hbytes
    rw [hx.encode_eq hsend, ← hbytes, if_pos (le_min hlimit hlength)]
  · obtain ⟨x, -, hx⟩ := h.laws.encoding v
    obtain ⟨hbytes, -⟩ := hx.only _ _ (decode_eq_ok.mp hdecode)
    obtain ⟨hbytes', -⟩ := hx.only _ _ (decode_eq_ok.mp hdecode')
    exact hbytes.trans hbytes'.symm
  · have hlocal := h.laws.isLocal _ _ v (decode_eq_ok.mp hdecode) more
    have hread := decode_eq_ok.mp hdecode'
    rw [hlocal] at hread
    exact Decoder.mk.inj (Prod.mk.inj (Except.ok.inj hread)).2
  · obtain ⟨x, -, hx⟩ := h.laws.encoding v
    obtain ⟨hbytes, -⟩ := hx.only _ _ hread
    exact ⟨x, hbytes.symm⟩
  · obtain ⟨e, he⟩ := hbad.rejects
    exact ⟨e, decode_eq_error he⟩

/-- A request that is decoded is the only one with its bytes. -/
theorem decode_canonical_of_pollRequest :
    let _ : Target := ⟨false⟩
    let bytes : List UInt8 := [5, 7, 0, 0, 0, 0, 0, 0, 0]
    encode (MonitorRequest.poll 7) 1024 = .ok bytes ∧
      (∀ more w, decode MonitorRequest (bytes ++ more) = .ok w → more = []) ∧
      ∃ e, decode MonitorRequest (7 :: bytes) = .error e := by
  intro _ bytes
  have h := decode_canonical_of_schema (.plain .monitorRequest)
  have hdecode : decode MonitorRequest bytes = .ok (.poll 7) := by decide
  refine ⟨h.1 _ _ hdecode (by decide) 1024 (by decide), fun more w => h.2.2.1 _ _ _ w hdecode, ?_⟩
  exact h.2.2.2.2 _ (.enumTag (by decide))

/-- As many bytes as a length can count, with their length. -/
def longestBlob : List UInt8 := leBytes 4 u32Max ++ List.replicate u32Max 0

lemma reads_bytes (bytes : List UInt8) : Reads (readMany bytes.length) bytes bytes := by
  induction bytes with
  | nil => exact reads_pure []
  | cons byte bytes ih => exact (reads_byte byte).bind (ih.map _)

lemma decode_longestBlob :
    decode (List UInt8) longestBlob = .ok (List.replicate u32Max 0) := by
  have hmany := reads_bytes (List.replicate u32Max 0)
  rw [List.length_replicate] at hmany
  have hread := hmany.withLength le_rfl (List.length_replicate).ge []
  rw [List.append_nil] at hread
  exact decode_eq_ok.mpr hread

/-- Bytes that are decoded, but are longer than what `encode` gives. -/
theorem not_encode_of_longestBlob :
    decode (List UInt8) longestBlob = .ok (List.replicate u32Max 0) ∧
      ∀ limit, encode (List.replicate u32Max (0 : UInt8)) limit ≠ .ok longestBlob := by
  refine ⟨decode_longestBlob, fun limit hencode => ?_⟩
  have hlaws := LawfulWire.laws (α := List UInt8)
  obtain ⟨bytes, -, hbytes⟩ := hlaws.encoding (List.replicate u32Max 0)
  rw [hbytes.encode_eq trivial] at hencode
  split at hencode
  · next hfits =>
    rw [Except.ok.inj hencode, longestBlob, List.length_append, length_leBytes,
      List.length_replicate] at hfits
    omega
  · cases hencode

end Procinsh.Ipc
