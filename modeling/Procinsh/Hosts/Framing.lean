import Procinsh.Foundation.LittleEndian
import Procinsh.Hosts.Wire

/-!
# Agent link framing

A message of an agent link is sent as a frame: the length of the rest as a big-endian `u32`, one
encoding byte, then the JSON text of the message (`src/http_server/hosts/wire.rs`).  A text that is
longer than a threshold is compressed.  The serializer and the compressor are not part of the
repository; they are parameters, and `MessageCodec.Lawful` says what the framing relies on.

The largest message is a bound on the compressed and on the plain text when a message is read, but
on the compressed text only when it is written.  So a frame is read back exactly if the plain text
of its message meets the bound.
-/

namespace Procinsh

/-- `ipc::schema::MAX_RESPONSE`. -/
def maxResponse : ℕ := 1024 * 1024 * 1024

/-- The largest message, compressed or not, including its encoding byte. -/
def maxFrameBytes : ℕ := maxResponse + 64 * 1024

/-- Smaller messages are sent as plain JSON. -/
def compressAbove : ℕ := 1024

/-- The encoding byte of plain JSON. -/
def plain : UInt8 := 1

/-- The encoding byte of compressed JSON. -/
def gzip : UInt8 := 2

/-- The serializer and the compressor. -/
structure MessageCodec where
  /-- `serde_json::to_vec`. -/
  toVec : Message → Except String (List UInt8)
  /-- `serde_json::from_slice`. -/
  fromSlice : List UInt8 → Except String Message
  /-- What `GzEncoder` makes of the bytes that are written to it. -/
  compress : List UInt8 → Except String (List UInt8)
  /-- The bytes that `GzDecoder` yields, and the error that it ends with. -/
  decompress : List UInt8 → List UInt8 × Option String

namespace MessageCodec

/-- What `take(limit).read_to_end` gives on the decompressed bytes: an error behind the limit is not
met. -/
def readToEnd (codec : MessageCodec) (limit : ℕ) (payload : List UInt8) :
    Except String (List UInt8) :=
  let (json, failure) := codec.decompress payload
  if limit ≤ json.length then .ok (json.take limit)
  else
    match failure with
    | none => .ok json
    | some _ => .error "invalid compressed agent message"

/-- Serializing and compressing can be undone, and neither makes anything of no bytes. -/
structure Lawful (codec : MessageCodec) : Prop where
  fromSlice_toVec : ∀ message json, codec.toVec message = .ok json →
    codec.fromSlice json = .ok message
  fromSlice_nil : ∀ message, codec.fromSlice [] ≠ .ok message
  decompress_compress : ∀ json payload, codec.compress json = .ok payload →
    codec.decompress payload = (json, none)
  decompress_nil : (codec.decompress []).2 ≠ none

end MessageCodec

/-! ## Frames -/

/-- A connection that bytes are read from, as the bytes that are still to come. -/
abbrev FrameReader (α : Type) := StateT (List UInt8) (Except String) α

/-- `read_exact`: the next bytes. -/
def readExact (length : ℕ) : FrameReader (List UInt8) := fun input =>
  if input.length < length then .error "early eof"
  else .ok (input.take length, input.drop length)

/-- The bytes of a `u32`, most significant first. -/
def u32Bytes (v : UInt32) : List UInt8 := (leBytes 4 v.toNat).reverse

/-- `read_u32`: a big-endian number. -/
def readU32 : FrameReader ℕ := do
  let bytes ← readExact 4
  return leValue bytes.reverse

/-- `read_u8`. -/
def readU8 : FrameReader UInt8 := fun
  | [] => .error "early eof"
  | byte :: input => .ok (byte, input)

variable (codec : MessageCodec)

/-- The encoding of a message and its payload. -/
def encodeHostMessage (message : Message) : Except String (UInt8 × List UInt8) := do
  let json ← codec.toVec message
  if json.length ≤ compressAbove then return (plain, json)
  return (gzip, ← codec.compress json)

/-- The message that a payload stands for. -/
def decodeHostMessage (encoding : UInt8) (payload : List UInt8) : Except String Message :=
  if encoding = plain then codec.fromSlice payload
  else if encoding = gzip then do
    let json ← codec.readToEnd (maxFrameBytes + 1) payload
    if maxFrameBytes < json.length then throw "agent message is too large"
    codec.fromSlice json
  else throw s!"unknown agent message encoding {encoding}"

/-- Reads a frame; large payloads are decoded on another thread, to the same message. -/
def readHostMessage : FrameReader Message := do
  let length ← readU32
  if ¬ (2 ≤ length ∧ length ≤ maxFrameBytes) then
    throw s!"agent frame length {length} is out of range"
  let encoding ← readU8
  let payload ← readExact (length - 1)
  decodeHostMessage codec encoding payload

/-- The frame that is written for a message. -/
def writeHostMessage (message : Message) : Except String (List UInt8) := do
  let (encoding, payload) ← encodeHostMessage codec message
  if ¬ payload.length < maxFrameBytes then throw "agent message is too large"
  return u32Bytes (UInt32.ofNat payload.length + 1) ++ encoding :: payload

/-- The frames of messages that are written one after the other. -/
def writeHostMessages : List Message → Except String (List UInt8)
  | [] => return []
  | message :: messages => do
    let frame ← writeHostMessage codec message
    return frame ++ (← writeHostMessages messages)

/-- Reads a number of frames. -/
def readHostMessages : ℕ → FrameReader (List Message)
  | 0 => return []
  | n + 1 => do
    let message ← readHostMessage codec
    return message :: (← readHostMessages n)

variable {codec} {message : Message} {messages : List Message} {frame stream json payload : List UInt8}

/-! ## Reading one frame -/

/-- The first of two readers succeeds. -/
theorem frameReader_bind_ok {α β : Type} {r : FrameReader α} {f : α → FrameReader β}
    {input rest : List UInt8} {a : α} (h : r input = .ok (a, rest)) :
    (r >>= f) input = f a rest := by
  change (r input >>= fun p => f p.1 p.2) = _
  rw [h]
  rfl

/-- The first of two readers fails. -/
theorem frameReader_bind_error {α β : Type} {r : FrameReader α} {f : α → FrameReader β}
    {input : List UInt8} {e : String} (h : r input = .error e) : (r >>= f) input = .error e := by
  change (r input >>= fun p => f p.1 p.2) = _
  rw [h]
  rfl

/-- As many bytes as are asked for are read. -/
theorem readExact_append (bytes rest : List UInt8) :
    readExact bytes.length (bytes ++ rest) = .ok (bytes, rest) := by
  have henough : ¬ (bytes ++ rest).length < bytes.length := by
    rw [List.length_append]
    omega
  rw [readExact, if_neg henough, List.take_left, List.drop_left]

/-- A `u32` is read back. -/
theorem readU32_u32Bytes (v : UInt32) (rest : List UInt8) :
    readU32 (u32Bytes v ++ rest) = .ok (v.toNat, rest) := by
  have hlength : (u32Bytes v).length = 4 := by rw [u32Bytes, List.length_reverse, length_leBytes]
  have hvalue : leValue (u32Bytes v).reverse = v.toNat := by
    rw [u32Bytes, List.reverse_reverse, leValue_leBytes_of_lt v.toNat_lt]
  have hread := readExact_append (u32Bytes v) rest
  rw [hlength] at hread
  rw [readU32, frameReader_bind_ok hread, hvalue]
  rfl

/-- A frame whose length is in range is read whole, and its payload decoded. -/
theorem readHostMessage_frame {encoding : UInt8} (hne : payload ≠ [])
    (hlength : payload.length < maxFrameBytes) (rest : List UInt8) :
    readHostMessage codec (u32Bytes (UInt32.ofNat payload.length + 1) ++ encoding :: payload ++ rest)
      = (decodeHostMessage codec encoding payload).map fun message => (message, rest) := by
  have hpos : 0 < payload.length := List.length_pos_of_ne_nil hne
  have hmax : maxFrameBytes < 2 ^ 32 := by decide
  have hvalue : (UInt32.ofNat payload.length + 1).toNat = payload.length + 1 := by
    rw [UInt32.toNat_add, UInt32.toNat_ofNat']
    change (payload.length % 2 ^ 32 + 1) % 2 ^ 32 = _
    omega
  have hread := readU32_u32Bytes (UInt32.ofNat payload.length + 1) (encoding :: payload ++ rest)
  rw [hvalue] at hread
  have hrange : 2 ≤ payload.length + 1 ∧ payload.length + 1 ≤ maxFrameBytes := by omega
  rw [List.append_assoc, readHostMessage, frameReader_bind_ok hread, if_neg (not_not.mpr hrange)]
  have hbyte : readU8 (encoding :: payload ++ rest) = .ok (encoding, payload ++ rest) := rfl
  change (readU8 >>= _) (encoding :: payload ++ rest) = _
  rw [frameReader_bind_ok hbyte, Nat.add_sub_cancel,
    frameReader_bind_ok (readExact_append payload rest)]
  cases decodeHostMessage codec encoding payload with
  | error e => rfl
  | ok message => rfl

/-! ## Reading what has been written -/

/-- The JSON text of the message is at most as long as the largest message. -/
def MessageCodec.Fits (codec : MessageCodec) (message : Message) : Prop :=
  ∀ json, codec.toVec message = .ok json → json.length ≤ maxFrameBytes

/-- A short text is sent as it is, a long one compressed. -/
theorem encodeHostMessage_eq_ok {encoding : UInt8}
    (h : encodeHostMessage codec message = .ok (encoding, payload)) :
    ∃ json, codec.toVec message = .ok json ∧
      ((json.length ≤ compressAbove ∧ encoding = plain ∧ payload = json) ∨
        (encoding = gzip ∧ codec.compress json = .ok payload)) := by
  unfold encodeHostMessage at h
  cases hjson : codec.toVec message with
  | error e =>
    rw [hjson] at h
    cases h
  | ok json =>
    rw [hjson] at h
    refine ⟨json, rfl, ?_⟩
    change (if json.length ≤ compressAbove then Except.ok (plain, json)
      else codec.compress json >>= fun payload => .ok (gzip, payload)) = _ at h
    split at h
    · next hshort =>
      cases h
      exact .inl ⟨hshort, rfl, rfl⟩
    · cases hcompress : codec.compress json with
      | error e =>
        rw [hcompress] at h
        cases h
      | ok compressed =>
        rw [hcompress] at h
        cases h
        exact .inr ⟨rfl, rfl⟩

/-- The plain text is decompressed up to a byte more than the largest message. -/
theorem readToEnd_compress (hcodec : codec.Lawful) (h : codec.compress json = .ok payload)
    (limit : ℕ) : codec.readToEnd limit payload = .ok (json.take limit) := by
  unfold MessageCodec.readToEnd
  rw [hcodec.decompress_compress json payload h]
  by_cases hlong : limit ≤ json.length
  · exact if_pos hlong
  · have hall : json.take limit = json := List.take_of_length_le (by omega)
    rw [hall]
    exact if_neg hlong

/-- What has been encoded is decoded unless the plain text is too long. -/
theorem decode_encode (hcodec : codec.Lawful) {encoding : UInt8}
    (h : encodeHostMessage codec message = .ok (encoding, payload))
    (hjson : codec.toVec message = .ok json) :
    payload ≠ [] ∧ decodeHostMessage codec encoding payload =
      if json.length ≤ maxFrameBytes then .ok message
      else .error "agent message is too large" := by
  have hback : codec.fromSlice json = .ok message := hcodec.fromSlice_toVec message json hjson
  have hbound : compressAbove ≤ maxFrameBytes := by decide
  obtain ⟨json', hjson', hcases⟩ := encodeHostMessage_eq_ok h
  obtain rfl := Except.ok.inj (hjson.symm.trans hjson')
  rcases hcases with ⟨hshort, rfl, rfl⟩ | ⟨rfl, hcompress⟩
  · constructor
    · rintro rfl
      exact hcodec.fromSlice_nil message hback
    · rw [decodeHostMessage, if_pos rfl, hback, if_pos (hshort.trans hbound)]
  · constructor
    · rintro rfl
      have hwhole := hcodec.decompress_compress json [] hcompress
      exact hcodec.decompress_nil (by rw [hwhole])
    · have hgzip : gzip ≠ plain := by decide
      rw [decodeHostMessage, if_neg hgzip, if_pos rfl, readToEnd_compress hcodec hcompress]
      change (if maxFrameBytes < (json.take (maxFrameBytes + 1)).length then
        Except.error "agent message is too large"
        else codec.fromSlice (json.take (maxFrameBytes + 1))) = _
      rw [List.length_take]
      by_cases hfits : json.length ≤ maxFrameBytes
      · rw [if_pos hfits, if_neg (by omega), List.take_of_length_le (by omega), hback]
      · rw [if_neg hfits, if_pos (by omega)]

/-- What writing a message does. -/
theorem writeHostMessage_eq_ok (h : writeHostMessage codec message = .ok frame) :
    ∃ encoding payload, encodeHostMessage codec message = .ok (encoding, payload) ∧
      payload.length < maxFrameBytes ∧
      frame = u32Bytes (UInt32.ofNat payload.length + 1) ++ encoding :: payload := by
  unfold writeHostMessage at h
  cases hencode : encodeHostMessage codec message with
  | error e =>
    rw [hencode] at h
    cases h
  | ok encoded =>
    obtain ⟨encoding, payload⟩ := encoded
    rw [hencode] at h
    refine ⟨encoding, payload, rfl, ?_⟩
    by_cases hlength : payload.length < maxFrameBytes
    · change (if ¬ payload.length < maxFrameBytes then Except.error "agent message is too large"
        else .ok (u32Bytes (UInt32.ofNat payload.length + 1) ++ encoding :: payload)) = _ at h
      rw [if_neg (not_not.mpr hlength)] at h
      exact ⟨hlength, (Except.ok.inj h).symm⟩
    · change (if ¬ payload.length < maxFrameBytes then Except.error "agent message is too large"
        else .ok (u32Bytes (UInt32.ofNat payload.length + 1) ++ encoding :: payload)) = _ at h
      rw [if_pos hlength] at h
      cases h

/-- Reading a frame that has been written gives its message, or refuses it as too large. -/
theorem read_write (hcodec : codec.Lawful) (h : writeHostMessage codec message = .ok frame)
    (rest : List UInt8) :
    (codec.Fits message → readHostMessage codec (frame ++ rest) = .ok (message, rest)) ∧
      (¬ codec.Fits message →
        readHostMessage codec (frame ++ rest) = .error "agent message is too large") := by
  obtain ⟨encoding, payload, hencode, hlength, rfl⟩ := writeHostMessage_eq_ok h
  obtain ⟨json, hjson, -⟩ := encodeHostMessage_eq_ok hencode
  obtain ⟨hne, hdecode⟩ := decode_encode hcodec hencode hjson
  rw [readHostMessage_frame hne hlength rest, hdecode]
  have hfits : codec.Fits message ↔ json.length ≤ maxFrameBytes := by
    constructor
    · intro hfits
      exact hfits json hjson
    · intro hle json' hjson'
      obtain rfl := Except.ok.inj (hjson.symm.trans hjson')
      exact hle
  rw [hfits]
  constructor
  · intro hle
    rw [if_pos hle]
    rfl
  · intro hlt
    rw [if_neg hlt]
    rfl

/-- Reading as many frames as have been written. -/
theorem read_writes_iff (hcodec : codec.Lawful)
    (h : writeHostMessages codec messages = .ok stream) (rest : List UInt8) :
    readHostMessages codec messages.length (stream ++ rest) = .ok (messages, rest) ↔
      ∀ message ∈ messages, codec.Fits message := by
  induction messages generalizing stream with
  | nil =>
    cases h
    exact iff_of_true rfl fun message hmessage => absurd hmessage List.not_mem_nil
  | cons message messages ih =>
    obtain ⟨frame, stream', hframe, hstream, rfl⟩ : ∃ frame stream',
        writeHostMessage codec message = .ok frame ∧
        writeHostMessages codec messages = .ok stream' ∧ stream = frame ++ stream' := by
      unfold writeHostMessages at h
      cases hframe : writeHostMessage codec message with
      | error e =>
        rw [hframe] at h
        cases h
      | ok frame =>
        rw [hframe] at h
        cases hstream : writeHostMessages codec messages with
        | error e =>
          rw [hstream] at h
          cases h
        | ok stream' =>
          rw [hstream] at h
          exact ⟨frame, stream', rfl, rfl, (Except.ok.inj h).symm⟩
    obtain ⟨hfits, hlarge⟩ := read_write hcodec hframe (stream' ++ rest)
    rw [List.forall_mem_cons, ← ih hstream, List.append_assoc, List.length_cons, readHostMessages]
    by_cases hmessage : codec.Fits message
    · rw [frameReader_bind_ok (hfits hmessage)]
      cases hrest : readHostMessages codec messages.length (stream' ++ rest) with
      | error e =>
        rw [frameReader_bind_error hrest]
        exact iff_of_false nofun fun hboth => by cases hboth.2
      | ok read =>
        obtain ⟨messages', rest'⟩ := read
        rw [frameReader_bind_ok hrest]
        constructor
        · intro hread
          cases hread
          exact ⟨hmessage, rfl⟩
        · rintro ⟨-, hread⟩
          cases hread
          rfl
    · rw [frameReader_bind_error (hlarge hmessage)]
      exact iff_of_false nofun fun hboth => hmessage hboth.1

/-- A message that is written is read back, by itself and in a sequence, exactly if its JSON text is
at most as long as the largest message. -/
theorem written_read_back_iff (hcodec : codec.Lawful) :
    (∀ message frame, writeHostMessage codec message = .ok frame →
      ((∀ rest, readHostMessage codec (frame ++ rest) = .ok (message, rest)) ↔
        codec.Fits message)) ∧
      ∀ messages stream, writeHostMessages codec messages = .ok stream →
        ((∀ rest, readHostMessages codec messages.length (stream ++ rest) = .ok (messages, rest)) ↔
          ∀ message ∈ messages, codec.Fits message) := by
  constructor
  · intro message frame hframe
    constructor
    · intro hread
      by_contra hlarge
      have herror := (read_write hcodec hframe []).2 hlarge
      rw [hread []] at herror
      cases herror
    · intro hfits rest
      exact (read_write hcodec hframe rest).1 hfits
  · intro messages stream hstream
    constructor
    · intro hread
      exact (read_writes_iff hcodec hstream []).mp (hread [])
    · intro hfits rest
      exact (read_writes_iff hcodec hstream rest).mpr hfits

/-! ## A response that is written and not read -/

/-- A response that consists of line breaks. -/
def lineBreaks (n : ℕ) : Message :=
  .response 7 (.ok (.data (.string (String.ofList (List.replicate n '\n')))))

/-- The text in front of the line breaks. -/
def lineBreaksHead : List UInt8 :=
  "\x7b\"response\":\x7b\"id\":7,\"response\":\x7b\"Ok\":\x7b\"Data\":\"".toList.map Char.toUInt8

/-- The text behind them. -/
def lineBreaksTail : List UInt8 := "\"\x7d\x7d\x7d\x7d".toList.map Char.toUInt8

/-- The JSON text of the response, with two bytes for each line break. -/
def lineBreaksJson (n : ℕ) : List UInt8 :=
  lineBreaksHead ++ (List.replicate n [92, 110]).flatten ++ lineBreaksTail

/-- The number of line breaks, if the message consists of them. -/
def lineBreaksOf : Message → ℕ
  | .response _ (.ok (.data (.string s))) => s.length
  | _ => 0

/-- The number of line breaks, if the text consists of them. -/
def lineBreaksIn (json : List UInt8) : ℕ :=
  (json.length - (lineBreaksHead.length + lineBreaksTail.length)) / 2

theorem lineBreaksOf_lineBreaks (n : ℕ) : lineBreaksOf (lineBreaks n) = n := by
  change (String.ofList (List.replicate n '\n')).length = n
  rw [String.length_ofList, List.length_replicate]

theorem length_lineBreaksJson (n : ℕ) :
    (lineBreaksJson n).length = lineBreaksHead.length + lineBreaksTail.length + 2 * n := by
  have hflatten : ((List.replicate n [(92 : UInt8), 110]).flatten).length = n * 2 := by simp
  rw [lineBreaksJson, List.length_append, List.length_append, hflatten]
  omega

theorem lineBreaksIn_lineBreaksJson (n : ℕ) : lineBreaksIn (lineBreaksJson n) = n := by
  rw [lineBreaksIn, length_lineBreaksJson]
  omega

/-- A codec of these responses: the serializer as `serde_json` has it, and a compressor that sends the
number of the line breaks. -/
def lineBreaksCodec : MessageCodec where
  toVec message :=
    if message = lineBreaks (lineBreaksOf message) then .ok (lineBreaksJson (lineBreaksOf message))
    else .error "not a list of line breaks"
  fromSlice json :=
    if json = lineBreaksJson (lineBreaksIn json) then .ok (lineBreaks (lineBreaksIn json))
    else .error "expected value"
  compress json :=
    if json = lineBreaksJson (lineBreaksIn json) ∧ lineBreaksIn json < 256 ^ 8 then
      .ok ([31, 139, 8, 1] ++ leBytes 8 (lineBreaksIn json))
    else .ok ([31, 139, 8, 0] ++ json)
  decompress
    | 31 :: 139 :: 8 :: 1 :: payload => (lineBreaksJson (leValue payload), none)
    | 31 :: 139 :: 8 :: 0 :: payload => (payload, none)
    | _ => ([], some "invalid gzip header")

theorem lineBreaksCodec_toVec (n : ℕ) :
    lineBreaksCodec.toVec (lineBreaks n) = .ok (lineBreaksJson n) := by
  unfold lineBreaksCodec
  dsimp only
  rw [lineBreaksOf_lineBreaks]
  exact if_pos rfl

theorem lineBreaksCodec_lawful : lineBreaksCodec.Lawful where
  fromSlice_toVec message json h := by
    unfold lineBreaksCodec at h ⊢
    dsimp only at h ⊢
    split at h
    · next hmessage =>
      obtain rfl := Except.ok.inj h
      rw [lineBreaksIn_lineBreaksJson, if_pos rfl, ← hmessage]
    · cases h
  fromSlice_nil message h := by
    unfold lineBreaksCodec at h
    dsimp only at h
    split at h
    · next hnil =>
      have hlength := congrArg List.length hnil
      rw [length_lineBreaksJson] at hlength
      have hhead : lineBreaksHead.length ≠ 0 := by decide
      rw [List.length_nil] at hlength
      omega
    · cases h
  decompress_compress json payload h := by
    unfold lineBreaksCodec at h ⊢
    dsimp only at h ⊢
    split at h
    · next hjson =>
      obtain rfl := Except.ok.inj h
      change (lineBreaksJson (leValue (leBytes 8 (lineBreaksIn json))), none) = _
      rw [leValue_leBytes_of_lt hjson.2, ← hjson.1]
    · obtain rfl := Except.ok.inj h
      rfl
  decompress_nil := by
    decide

/-- A few line breaks are written and read. -/
theorem written_read_back_of_lineBreaks :
    ∃ frame, writeHostMessage lineBreaksCodec (lineBreaks 3) = .ok frame ∧
      ((∀ rest, readHostMessage lineBreaksCodec (frame ++ rest) = .ok (lineBreaks 3, rest)) ↔
        lineBreaksCodec.Fits (lineBreaks 3)) := by
  have hwrite : writeHostMessage lineBreaksCodec (lineBreaks 3) =
      .ok (u32Bytes (UInt32.ofNat (lineBreaksJson 3).length + 1) ++ plain :: lineBreaksJson 3) := by
    decide +kernel
  exact ⟨_, hwrite, (written_read_back_iff lineBreaksCodec_lawful).1 _ _ hwrite⟩

/-- Many line breaks are written in a frame of seventeen bytes. -/
theorem write_lineBreaks {n : ℕ} (hlong : compressAbove ≤ n) (hcount : n < 256 ^ 8) :
    writeHostMessage lineBreaksCodec (lineBreaks n) =
      .ok (u32Bytes 13 ++ gzip :: ([31, 139, 8, 1] ++ leBytes 8 n)) := by
  have hcompress : lineBreaksCodec.compress (lineBreaksJson n) =
      .ok ([31, 139, 8, 1] ++ leBytes 8 n) := by
    unfold lineBreaksCodec
    dsimp only
    rw [lineBreaksIn_lineBreaksJson, if_pos ⟨rfl, hcount⟩]
  have hencode : encodeHostMessage lineBreaksCodec (lineBreaks n) =
      .ok (gzip, [31, 139, 8, 1] ++ leBytes 8 n) := by
    have hlength : ¬ (lineBreaksJson n).length ≤ compressAbove := by
      have hhead : lineBreaksHead.length ≠ 0 := by decide
      rw [length_lineBreaksJson]
      omega
    unfold encodeHostMessage
    rw [lineBreaksCodec_toVec]
    change (if (lineBreaksJson n).length ≤ compressAbove then Except.ok (plain, lineBreaksJson n)
      else lineBreaksCodec.compress (lineBreaksJson n) >>= fun payload => .ok (gzip, payload)) = _
    rw [if_neg hlength, hcompress]
    rfl
  have hpayload : ([31, 139, 8, 1] ++ leBytes 8 n).length = 12 := by
    rw [List.length_append, length_leBytes]
    rfl
  unfold writeHostMessage
  rw [hencode]
  change (if ¬ ([31, 139, 8, 1] ++ leBytes 8 n).length < maxFrameBytes then
      Except.error "agent message is too large"
    else .ok (u32Bytes (UInt32.ofNat ([31, 139, 8, 1] ++ leBytes 8 n).length + 1) ++
      gzip :: ([31, 139, 8, 1] ++ leBytes 8 n))) = _
  rw [hpayload, if_neg (by decide)]
  rfl

/-- More line breaks than the largest message has room for are written, and refused when they are
read. -/
theorem read_lineBreaks {n : ℕ} (hlong : maxFrameBytes ≤ 2 * n) (hcount : n < 256 ^ 8) :
    ∃ frame, writeHostMessage lineBreaksCodec (lineBreaks n) = .ok frame ∧
      ∀ rest, readHostMessage lineBreaksCodec (frame ++ rest) =
        .error "agent message is too large" := by
  have hbound : 2 * compressAbove ≤ maxFrameBytes := by decide
  have hwrite := write_lineBreaks (n := n) (by omega) hcount
  refine ⟨_, hwrite, fun rest => (read_write lineBreaksCodec_lawful hwrite rest).2 fun hfits => ?_⟩
  have hlength := hfits _ (lineBreaksCodec_toVec n)
  have hhead : lineBreaksHead.length ≠ 0 := by decide
  rw [length_lineBreaksJson] at hlength
  omega

/-- A response of half a gigabyte of line breaks is written, and refused when it is read. -/
theorem response_written_not_read :
    lineBreaksCodec.Lawful ∧ ∃ frame,
      writeHostMessage lineBreaksCodec (lineBreaks (maxFrameBytes / 2)) = .ok frame ∧
        ∀ rest, readHostMessage lineBreaksCodec (frame ++ rest) =
          .error "agent message is too large" :=
  ⟨lineBreaksCodec_lawful, read_lineBreaks (by decide) (by decide)⟩

end Procinsh
