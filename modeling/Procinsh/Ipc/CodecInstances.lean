import Procinsh.Ipc.CodecLaws

/-!
# Laws of the generic instances

Booleans, strings, collections and addresses, and the types made by `wireStruct` and `wireEnum`.
-/

namespace Procinsh.Ipc

variable {α β : Type}

/-! ## Transfers of composed values -/

namespace Transfer

/-- What becomes of the elements. -/
def list (t : Transfer α) : Transfer (List α) where
  received vs := vs.map t.received
  Sendable vs := ∀ v ∈ vs, t.Sendable v
  Accepted vs := ∀ v ∈ vs, t.Accepted v

/-- What becomes of the value, if there is one. -/
def option (t : Transfer α) : Transfer (Option α) where
  received v := v.map t.received
  Sendable v := ∀ a ∈ v, t.Sendable a
  Accepted v := ∀ a ∈ v, t.Accepted a

/-- What becomes of the result. -/
def result (t : Transfer α) (u : Transfer β) : Transfer (Except β α) where
  received
    | .ok a => .ok (t.received a)
    | .error b => .error (u.received b)
  Sendable
    | .ok a => t.Sendable a
    | .error b => u.Sendable b
  Accepted
    | .ok a => t.Accepted a
    | .error b => u.Accepted b

/-- What becomes of both components. -/
def prod (t : Transfer α) (u : Transfer β) : Transfer (α × β) where
  received v := (t.received v.1, u.received v.2)
  Sendable v := t.Sendable v.1 ∧ u.Sendable v.2
  Accepted v := t.Accepted v.1 ∧ u.Accepted v.2

/-- All values cross unchanged when they are received unchanged, sent and accepted. -/
lemma eq_exact {t : Transfer α} (hreceived : ∀ v, t.received v = v) (hsend : ∀ v, t.Sendable v)
    (haccept : ∀ v, t.Accepted v) : t = exact := by
  refine Transfer.ext (funext hreceived) ?_ ?_
  · exact funext fun v => propext (iff_of_true (hsend v) trivial)
  · exact funext fun v => propext (iff_of_true (haccept v) trivial)

lemma list_exact : (exact : Transfer α).list = exact :=
  eq_exact List.map_id (fun _ _ _ => trivial) fun _ _ _ => trivial

lemma option_exact : (exact : Transfer α).option = exact :=
  eq_exact (congrFun Option.map_id) (fun _ _ _ => trivial) fun _ _ _ => trivial

lemma result_exact : (exact : Transfer α).result (exact : Transfer β) = exact := by
  refine eq_exact (fun v => ?_) (fun v => ?_) fun v => ?_
  all_goals cases v
  · rfl
  · rfl
  all_goals trivial

lemma prod_exact : (exact : Transfer α).prod (exact : Transfer β) = exact :=
  eq_exact (fun _ => rfl) (fun _ => ⟨trivial, trivial⟩) fun _ => ⟨trivial, trivial⟩

/-- What becomes of `k fs` is what becomes of `fs`. -/
structure Along (t : Transfer α) (u : Transfer β) (k : β → α) : Prop where
  received : ∀ fs, t.received (k fs) = k (u.received fs)
  sendable : ∀ fs, t.Sendable (k fs) ↔ u.Sendable fs
  accepted : ∀ fs, t.Accepted (k fs) ↔ u.Accepted fs

lemma Along.refl (k : β → α) : (exact : Transfer α).Along exact k :=
  ⟨fun _ => rfl, fun _ => Iff.rfl, fun _ => Iff.rfl⟩

end Transfer

/-! ## Tags -/

/-- The encoding of a value that follows a tag, when no other tag leads to this value. -/
lemma Encoding.tagged [Wire α] [Wire β] {t : Transfer α} {u : Transfer β} {tag : UInt8}
    {g : UInt8 → Reader α} {fs : β} {x : List UInt8} (h : Encoding u fs x) (k : β → α)
    (hwrite : write (k fs) = do
      write tag
      write fs)
    (hread : (read : Reader α) = do
      let tag : UInt8 ← read
      g tag)
    (htag : g tag = do
      let fs ← read
      return k fs)
    (hother : ∀ other, other ≠ tag → ∀ input rest, g other input ≠ .ok (k fs, rest))
    (hk : ∀ fs', k fs' = k fs → fs' = fs) (halong : t.Along u k) :
    Encoding t (k fs) (tag :: x) where
  carries hsend := by
    have hnext : Carries (write fs) (g tag) x (t.Accepted (k fs)) (t.received (k fs)) := by
      rw [htag, halong.received, halong.accepted fs]
      exact (h.carries ((halong.sendable fs).mp hsend)).map k
    rw [hwrite, hread]
    exact ((carries_byte tag).bind hnext).mono fun hp => ⟨trivial, hp⟩
  fails hsend := by
    rw [hwrite]
    exact (carries_byte tag).bind_fails (h.fails fun hfs => hsend ((halong.sendable fs).mpr hfs))
  only input rest hok := by
    rw [hread] at hok
    obtain ⟨other, mid, hbyte, hg⟩ := reader_bind_eq_ok.mp hok
    have hinput := read_byte_eq_ok.mp hbyte
    by_cases heq : other = tag
    · rw [heq, htag] at hg
      obtain ⟨fs', hfs, hk'⟩ := reader_map_eq_ok.mp hg
      rw [hk fs' hk'] at hfs
      obtain ⟨hmid, hsend, hacc, hrec⟩ := h.only mid rest hfs
      refine ⟨?_, (halong.sendable fs).mpr hsend, (halong.accepted fs).mpr hacc, ?_⟩
      · rw [hinput, heq, hmid, List.cons_append]
      · rw [halong.received, hrec]
    · exact absurd hg (hother other heq mid rest)

/-! ## Booleans and strings -/

/-- A boolean is read from the byte 0 or 1 only. -/
lemma read_bool_eq_ok {input rest : Decoder} {v : Bool} :
    (read : Reader Bool) input = .ok (v, rest) ↔
      input.bytes = (if v then 1 else 0) :: rest.bytes := by
  refine reader_bind_eq_ok.trans ⟨?_, fun h => ?_⟩
  · rintro ⟨byte, mid, hbyte, hv⟩
    rw [read_byte_eq_ok.mp hbyte]
    split at hv
    · next h =>
      obtain ⟨rfl, rfl⟩ := reader_pure_eq_ok.mp hv
      rw [h]
      rfl
    · split at hv
      · next h =>
        obtain ⟨rfl, rfl⟩ := reader_pure_eq_ok.mp hv
        rw [h]
        rfl
      · exact absurd hv not_reader_throw_eq_ok
  · refine ⟨if v then 1 else 0, rest, read_byte_eq_ok.mpr h, ?_⟩
    cases v <;> rfl

instance : LawfulWire Bool where
  laws := by
    refine ⟨fun v => ⟨[if v then 1 else 0], List.cons_ne_nil _ _, .ofExact ?_ ?_⟩, ?_⟩
    · exact .ofReads (writes_byte _) fun rest => read_bool_eq_ok.mpr rfl
    · exact fun input rest h => read_bool_eq_ok.mp h
    · refine local_byte.bind fun byte => ?_
      exact (local_pure _).ite ((local_pure _).ite (local_throw _))

/-- Bytes are decoded as the text that they encode. -/
lemma fromUTF8?_eq_some {bytes : List UInt8} {text : String} :
    String.fromUTF8? bytes.toByteArray = some text ↔ bytes = text.toByteArray.data.toList := by
  unfold String.fromUTF8?
  constructor
  · intro h
    split at h
    · rw [← Option.some.inj h]
      exact List.toList_data_toByteArray.symm
    · cases h
  · rintro rfl
    have hbytes : text.toByteArray.data.toList.toByteArray = text.toByteArray := by
      apply ByteArray.ext
      rw [List.data_toByteArray, Array.toArray_toList]
    have hvalid : text.toByteArray.data.toList.toByteArray.IsValidUTF8 := by
      rw [hbytes]
      exact text.isValidUTF8
    rw [dif_pos hvalid]
    exact congrArg some (String.toByteArray_inj.mp hbytes)

/-- A string is read from its length and its bytes only. -/
lemma read_string_eq_ok {input rest : Decoder} {v : String} :
    (read : Reader String) input = .ok (v, rest) ↔
      readBlob input = .ok (v.toByteArray.data.toList, rest) := by
  refine reader_bind_eq_ok.trans ⟨?_, fun h => ⟨_, rest, h, ?_⟩⟩
  · rintro ⟨bytes, mid, hblob, hv⟩
    cases htext : String.fromUTF8? bytes.toByteArray with
    | none =>
      rw [htext] at hv
      exact absurd hv not_reader_throw_eq_ok
    | some text =>
      rw [htext] at hv
      obtain ⟨rfl, rfl⟩ := reader_pure_eq_ok.mp hv
      rwa [← fromUTF8?_eq_some.mp htext]
  · rw [fromUTF8?_eq_some.mpr rfl]
    rfl

instance : LawfulWire String where
  laws := by
    refine ⟨fun v => ?_, ?_⟩
    · let bytes := v.toByteArray.data.toList
      refine ⟨leBytes 4 bytes.length ++ bytes, ?_, .ofExact ?_ fun input rest h => ?_⟩
      · exact List.append_ne_nil_of_left_ne_nil (List.cons_ne_nil _ _) _
      · refine (carries_blob bytes).imp (And.imp_right fun hblob _ rest => ?_) id
        exact read_string_eq_ok.mpr (hblob trivial rest)
      · exact readBlob_eq_ok (read_string_eq_ok.mp h)
    · refine local_readBlob.bind fun bytes => ?_
      split
      · exact local_pure _
      · exact local_throw _

/-! ## Collections -/

variable [Wire α] [Wire β]

lemma length_of_readMany {n : ℕ} {input rest : Decoder} {vs : List α}
    (h : readMany n input = .ok (vs, rest)) : vs.length = n := by
  induction n generalizing input vs with
  | zero =>
    obtain ⟨rfl, -⟩ := reader_pure_eq_ok.mp h
    rfl
  | succ n ih =>
    obtain ⟨v, mid, -, hvs⟩ := reader_bind_eq_ok.mp h
    obtain ⟨tail, htail, rfl⟩ := reader_map_eq_ok.mp hvs
    rw [List.length_cons, ih htail]

lemma local_readMany (h : Local (read : Reader α)) (n : ℕ) :
    Local (readMany n : Reader (List α)) := by
  induction n with
  | zero => exact local_pure _
  | succ n ih => exact h.bind fun v => ih.bind fun vs => local_pure _

/-- The coding of values is that of each in turn. -/
lemma coding_many {t : Transfer α} (h : WireLaws α t) (vs : List α) :
    ∃ bytes, vs.length ≤ bytes.length ∧
      Coding (writeAll vs) (readMany vs.length) t.list vs bytes := by
  induction vs with
  | nil =>
    refine ⟨[], le_rfl, fun _ => ?_, fun hsend => ?_, fun input rest hok => ?_⟩
    · exact .ofReads writes_pure (reads_pure [])
    · exact absurd (fun _ hv => absurd hv List.not_mem_nil) hsend
    · obtain ⟨-, rfl⟩ := reader_pure_eq_ok.mp hok
      exact ⟨rfl, fun _ hv => absurd hv List.not_mem_nil,
        fun _ hv => absurd hv List.not_mem_nil, rfl⟩
  | cons v vs ih =>
    obtain ⟨x, hne, hx⟩ := h.encoding v
    obtain ⟨y, hlength, hy⟩ := ih
    have hpos := List.length_pos_of_ne_nil hne
    refine ⟨x ++ y, ?_, fun hsend => ?_, fun hsend => ?_, fun input rest hok => ?_⟩
    · rw [List.length_append, List.length_cons]
      omega
    · obtain ⟨hv, hvs⟩ := List.forall_mem_cons.mp hsend
      have hnext := (hy.carries hvs).map (t.received v :: ·)
      exact ((hx.carries hv).bind hnext).mono List.forall_mem_cons.mp
    · by_cases hv : t.Sendable v
      · refine (hx.carries hv).bind_fails (hy.fails fun hvs => hsend ?_)
        exact List.forall_mem_cons.mpr ⟨hv, hvs⟩
      · exact (hx.fails hv).bind_left _
    · obtain ⟨v', mid, hv, hvs⟩ := reader_bind_eq_ok.mp hok
      obtain ⟨tail, htail, heq⟩ := reader_map_eq_ok.mp hvs
      obtain ⟨rfl, rfl⟩ := List.cons.inj heq
      obtain ⟨hinput, hsend, hacc, hrec⟩ := hx.only input mid hv
      obtain ⟨hmid, hsends, haccs, hrecs⟩ := hy.only mid rest htail
      refine ⟨by rw [hinput, hmid, List.append_assoc], List.forall_mem_cons.mpr ⟨hsend, hsends⟩,
        List.forall_mem_cons.mpr ⟨hacc, haccs⟩, ?_⟩
      exact congrArg₂ List.cons hrec hrecs

lemma WireLaws.list {t : Transfer α} (h : WireLaws α t) : WireLaws (List α) t.list := by
  refine ⟨fun vs => ?_, local_readLength.bind (local_readMany h.isLocal)⟩
  obtain ⟨x, hlength, hx⟩ := coding_many h vs
  refine ⟨leBytes 4 vs.length ++ x, ?_, fun hsend => ?_, fun hsend => ?_,
    fun input rest hok => ?_⟩
  · exact List.append_ne_nil_of_left_ne_nil (List.cons_ne_nil _ _) _
  · exact .withLength hlength (hx.carries hsend)
  · exact fails_withLength _ (hx.fails hsend)
  · obtain ⟨n, mid, hn, hvs⟩ := reader_bind_eq_ok.mp hok
    have heq := length_of_readMany hvs
    rw [← heq] at hn hvs
    obtain ⟨hmid, hlaws⟩ := hx.only mid rest hvs
    obtain ⟨hinput, -, -⟩ := readLength_eq_ok.mp hn
    exact ⟨by rw [hinput, hmid, List.append_assoc], hlaws⟩

instance [LawfulWire α] : LawfulWire (List α) where
  laws := by
    have h := (LawfulWire.laws (α := α)).list
    rwa [Transfer.list_exact] at h

/-- An array is read as its elements. -/
lemma read_vector_eq_ok {n : ℕ} {input rest : Decoder} {vs : List.Vector α n} :
    (read : Reader (List.Vector α n)) input = .ok (vs, rest) ↔
      readMany n input = .ok (vs.toList, rest) := by
  have hcheck : ∀ (us : List α) (mid : Decoder),
      (if h : us.length = n then pure ⟨us, h⟩ else throw "invalid monitor array" :
        Reader (List.Vector α n)) mid = .ok (vs, rest) ↔ us = vs.toList ∧ mid = rest := by
    intro us mid
    by_cases h : us.length = n
    · rw [dif_pos h]
      exact reader_pure_eq_ok.trans (and_congr_left fun _ => Subtype.ext_iff)
    · rw [dif_neg h]
      refine iff_of_false not_reader_throw_eq_ok fun heq => h ?_
      rw [heq.1, vs.toList_length]
  refine reader_bind_eq_ok.trans ⟨?_, fun h => ⟨_, rest, h, (hcheck _ _).mpr ⟨rfl, rfl⟩⟩⟩
  rintro ⟨us, mid, hus, hvs⟩
  obtain ⟨rfl, rfl⟩ := (hcheck us mid).mp hvs
  exact hus

instance {n : ℕ} [NeZero n] [LawfulWire α] : LawfulWire (List.Vector α n) where
  laws := by
    have h : WireLaws α .exact := LawfulWire.laws
    refine ⟨fun vs => ?_, fun input rest vs hok more => ?_⟩
    · obtain ⟨x, hlength, hx⟩ := coding_many h vs.toList
      rw [vs.toList_length] at hlength hx
      rw [Transfer.list_exact] at hx
      refine ⟨x, List.ne_nil_of_length_pos ((NeZero.pos n).trans_le hlength), .ofExact ?_ ?_⟩
      · refine (hx.carries trivial).imp (And.imp_right fun hreads _ rest => ?_) id
        exact read_vector_eq_ok.mpr (hreads trivial rest)
      · exact fun input rest hok => (hx.only input rest (read_vector_eq_ok.mp hok)).1
    · have hmany := local_readMany h.isLocal n input rest vs.toList (read_vector_eq_ok.mp hok)
      exact read_vector_eq_ok.mpr (hmany more)

/-! ## Options, results and pairs -/

/-- Nothing is written for no fields. -/
lemma encoding_unit (v : Unit) : Encoding .exact v [] := by
  refine .ofExact (.ofReads writes_pure (reads_pure v)) fun input rest h => ?_
  obtain ⟨-, rfl⟩ := reader_pure_eq_ok.mp h
  rfl

instance : LawfulFields Unit := ⟨⟨fun v => ⟨[], encoding_unit v⟩, local_pure ()⟩⟩

lemma WireLaws.option {t : Transfer α} (h : WireLaws α t) : WireLaws (Option α) t.option := by
  refine ⟨fun v => ?_, local_byte.bind fun tag => ?_⟩
  · cases v with
    | none =>
      have hnone : t.option.Along .exact fun _ : Unit => none := by
        refine ⟨fun _ => rfl, fun _ => iff_of_true ?_ trivial, fun _ => iff_of_true ?_ trivial⟩
        · exact fun _ hv => absurd hv (Option.not_mem_none _)
        · exact fun _ hv => absurd hv (Option.not_mem_none _)
      refine ⟨[0], List.cons_ne_nil _ _, (encoding_unit ()).tagged (fun _ => none)
        bind_pure_unit.symm rfl rfl (fun tag htag input rest hok => ?_) (fun _ _ => rfl) hnone⟩
      rw [if_neg htag] at hok
      split at hok
      · obtain ⟨a, -, ha⟩ := reader_map_eq_ok.mp hok
        cases ha
      · exact not_reader_throw_eq_ok hok
    | some a =>
      obtain ⟨x, -, hx⟩ := h.encoding a
      have hsome : t.option.Along t some :=
        ⟨fun _ => rfl, fun _ => by simp [Transfer.option], fun _ => by simp [Transfer.option]⟩
      refine ⟨1 :: x, List.cons_ne_nil _ _, hx.tagged some rfl rfl rfl
        (fun tag htag input rest hok => ?_) (fun _ => Option.some.inj) hsome⟩
      split at hok
      · cases (reader_pure_eq_ok.mp hok).1
      · exact not_reader_throw_eq_ok hok
  · exact (local_pure _).ite ((h.isLocal.bind fun _ => local_pure _).ite (local_throw _))

instance [LawfulWire α] : LawfulWire (Option α) where
  laws := by
    have h := (LawfulWire.laws (α := α)).option
    rwa [Transfer.option_exact] at h

lemma WireLaws.result {t : Transfer α} {u : Transfer β} (h : WireLaws α t) (h' : WireLaws β u) :
    WireLaws (Except β α) (t.result u) := by
  refine ⟨fun v => ?_, local_byte.bind fun tag => ?_⟩
  · cases v with
    | ok a =>
      obtain ⟨x, -, hx⟩ := h.encoding a
      refine ⟨0 :: x, List.cons_ne_nil _ _, hx.tagged Except.ok rfl rfl rfl
        (fun tag htag input rest hok => ?_) (fun _ => Except.ok.inj)
        ⟨fun _ => rfl, fun _ => Iff.rfl, fun _ => Iff.rfl⟩⟩
      rw [if_neg htag] at hok
      split at hok
      · obtain ⟨e, -, he⟩ := reader_map_eq_ok.mp hok
        cases he
      · exact not_reader_throw_eq_ok hok
    | error e =>
      obtain ⟨x, -, hx⟩ := h'.encoding e
      refine ⟨1 :: x, List.cons_ne_nil _ _, hx.tagged Except.error rfl rfl rfl
        (fun tag htag input rest hok => ?_) (fun _ => Except.error.inj)
        ⟨fun _ => rfl, fun _ => Iff.rfl, fun _ => Iff.rfl⟩⟩
      split at hok
      · obtain ⟨a, -, ha⟩ := reader_map_eq_ok.mp hok
        cases ha
      · exact not_reader_throw_eq_ok hok
  · refine (h.isLocal.bind fun _ => local_pure _).ite ?_
    exact (h'.isLocal.bind fun _ => local_pure _).ite (local_throw _)

instance [LawfulWire α] [LawfulWire β] : LawfulWire (Except β α) where
  laws := by
    have h := (LawfulWire.laws (α := α)).result (LawfulWire.laws (α := β))
    rwa [Transfer.result_exact] at h

/-- The encoding of a pair is that of its components. -/
lemma Encoding.prod {t : Transfer α} {u : Transfer β} {v : α × β} {x y : List UInt8}
    (hx : Encoding t v.1 x) (hy : Encoding u v.2 y) : Encoding (t.prod u) v (x ++ y) where
  carries hsend := (hx.carries hsend.1).bind ((hy.carries hsend.2).map _)
  fails hsend := by
    by_cases hfirst : t.Sendable v.1
    · exact (hx.carries hfirst).bind_fails (hy.fails fun hsecond => hsend ⟨hfirst, hsecond⟩)
    · exact (hx.fails hfirst).bind_left _
  only input rest hok := by
    obtain ⟨a, mid, ha, hb⟩ := reader_bind_eq_ok.mp hok
    obtain ⟨b, hsecond, rfl⟩ := reader_map_eq_ok.mp hb
    obtain ⟨hinput, hsend, hacc, hrec⟩ := hx.only input mid ha
    obtain ⟨hmid, hsends, haccs, hrecs⟩ := hy.only mid rest hsecond
    refine ⟨by rw [hinput, hmid, List.append_assoc], ⟨hsend, hsends⟩, ⟨hacc, haccs⟩, ?_⟩
    exact Prod.ext hrec hrecs

lemma local_read_prod (h : Local (read : Reader α)) (h' : Local (read : Reader β)) :
    Local (read : Reader (α × β)) :=
  h.bind fun _ => h'.bind fun _ => local_pure _

lemma WireLaws.prod {t : Transfer α} {u : Transfer β} (h : WireLaws α t) (h' : FieldLaws β u) :
    WireLaws (α × β) (t.prod u) := by
  refine ⟨fun v => ?_, local_read_prod h.isLocal h'.isLocal⟩
  obtain ⟨x, hne, hx⟩ := h.encoding v.1
  obtain ⟨y, hy⟩ := h'.encoding v.2
  exact ⟨x ++ y, List.append_ne_nil_of_left_ne_nil hne _, hx.prod hy⟩

instance [LawfulWire α] [LawfulFields β] : LawfulWire (α × β) where
  laws := by
    have h := (LawfulWire.laws (α := α)).prod (LawfulFields.laws (α := β))
    rwa [Transfer.prod_exact] at h

/-! ## Addresses -/

omit [Wire α] [Wire β]

instance : LawfulWire IpAddr where
  laws := by
    have h4 := LawfulWire.laws (α := List.Vector UInt8 4)
    have h16 := LawfulWire.laws (α := List.Vector UInt8 16)
    refine ⟨fun v => ?_, local_byte.bind fun tag => ?_⟩
    · cases v with
      | v4 octets =>
        obtain ⟨x, -, hx⟩ := h4.encoding octets
        refine ⟨4 :: x, List.cons_ne_nil _ _, hx.tagged IpAddr.v4 rfl rfl rfl
          (fun tag htag input rest hok => ?_) (fun _ => IpAddr.v4.inj) (.refl _)⟩
        rw [if_neg htag] at hok
        split at hok
        · obtain ⟨_, -, ha⟩ := reader_map_eq_ok.mp hok
          cases ha
        · exact not_reader_throw_eq_ok hok
      | v6 octets =>
        obtain ⟨x, -, hx⟩ := h16.encoding octets
        refine ⟨6 :: x, List.cons_ne_nil _ _, hx.tagged IpAddr.v6 rfl rfl rfl
          (fun tag htag input rest hok => ?_) (fun _ => IpAddr.v6.inj) (.refl _)⟩
        split at hok
        · obtain ⟨_, -, ha⟩ := reader_map_eq_ok.mp hok
          cases ha
        · exact not_reader_throw_eq_ok hok
    · refine (h4.isLocal.bind fun _ => local_pure _).ite ?_
      exact (h16.isLocal.bind fun _ => local_pure _).ite (local_throw _)

/-- One value is carried before another, when the other one determines it. -/
lemma Coding.exactBind {w : Writer} {f : Unit → Writer} {r : Reader α} {g : α → Reader β}
    {x y : List UInt8} {a : α} {b : β} (hx : Coding w r .exact a x)
    (hy : Coding (f ()) (g a) .exact b y)
    (hfirst : ∀ first input rest, g first input = .ok (b, rest) → first = a) :
    Coding (w >>= f) (r >>= g) .exact b (x ++ y) := by
  refine .ofExact ?_ fun input rest hok => ?_
  · exact ((hx.carries trivial).bind (hy.carries trivial)).mono fun _ => ⟨trivial, trivial⟩
  · obtain ⟨first, mid, ha, hb⟩ := reader_bind_eq_ok.mp hok
    rw [hfirst first mid rest hb] at ha hb
    rw [(hx.only input mid ha).1, (hy.only mid rest hb).1, List.append_assoc]

/-- The last value is carried and gives the whole, which determines it. -/
lemma Coding.exactMap {w : Writer} {r : Reader α} {x : List UInt8} {a : α}
    (hx : Coding w r .exact a x) (k : α → β) (hk : ∀ last, k last = k a → last = a) :
    Coding w (do let a ← r; return k a) .exact (k a) x := by
  refine .ofExact ((hx.carries trivial).map k) fun input rest hok => ?_
  obtain ⟨last, hlast, heq⟩ := reader_map_eq_ok.mp hok
  rw [hk last heq] at hlast
  exact (hx.only input rest hlast).1

/-- The address and the port are those that were read first. -/
lemma SocketAddr.of_readRest {ip : IpAddr} {port : UInt16} {input rest : Decoder}
    {address : SocketAddr} (h : readRest port ip input = .ok (address, rest)) :
    ip = address.ip ∧ port = address.port := by
  cases ip with
  | v4 ip =>
    obtain ⟨rfl, -⟩ := reader_pure_eq_ok.mp h
    exact ⟨rfl, rfl⟩
  | v6 ip =>
    obtain ⟨flowinfo, mid, -, hscope⟩ := reader_bind_eq_ok.mp h
    obtain ⟨scopeId, -, rfl⟩ := reader_map_eq_ok.mp hscope
    exact ⟨rfl, rfl⟩

lemma SocketAddr.coding_rest (address : SocketAddr) :
    ∃ bytes, Coding address.writeRest (readRest address.port address.ip) .exact address bytes := by
  have hscope := LawfulWire.laws (α := UInt32)
  cases address with
  | v4 ip port =>
    refine ⟨[], .ofExact (.ofReads writes_pure (reads_pure _)) fun input rest h => ?_⟩
    obtain ⟨-, rfl⟩ := reader_pure_eq_ok.mp h
    rfl
  | v6 ip port flowinfo scopeId =>
    obtain ⟨x, -, hx⟩ := hscope.encoding flowinfo
    obtain ⟨y, -, hy⟩ := hscope.encoding scopeId
    have hlast := hy.exactMap (v6 ip port flowinfo) fun last h => (v6.inj h).2.2.2
    refine ⟨x ++ y, hx.exactBind hlast fun first input rest h => ?_⟩
    obtain ⟨last, -, heq⟩ := reader_map_eq_ok.mp h
    exact (v6.inj heq).2.2.1

instance : LawfulWire SocketAddr where
  laws := by
    have hip := LawfulWire.laws (α := IpAddr)
    have hport := LawfulWire.laws (α := UInt16)
    have hscope := LawfulWire.laws (α := UInt32)
    refine ⟨fun v => ?_, hip.isLocal.bind fun ip => hport.isLocal.bind fun port => ?_⟩
    · obtain ⟨x, hne, hx⟩ := hip.encoding v.ip
      obtain ⟨y, -, hy⟩ := hport.encoding v.port
      obtain ⟨z, hz⟩ := v.coding_rest
      refine ⟨x ++ (y ++ z), List.append_ne_nil_of_left_ne_nil hne _,
        hx.exactBind (hy.exactBind hz ?_) ?_⟩
      · exact fun port input rest h => (SocketAddr.of_readRest h).2
      · intro ip input rest h
        obtain ⟨port, mid, -, hrest⟩ := reader_bind_eq_ok.mp h
        exact (SocketAddr.of_readRest hrest).1
    · cases ip with
      | v4 ip => exact local_pure _
      | v6 ip => exact hscope.isLocal.bind fun _ => hscope.isLocal.bind fun _ => local_pure _

/-! ## Structures and enumerations -/

/-- The laws of a structure follow from those of its fields. -/
lemma WireLaws.struct [Wire β] {t : Transfer α} {u : Transfer β} {fields : α → β} {make : β → α}
    (h : WireLaws β u) (hmake : ∀ v, make (u.received (fields v)) = t.received v)
    (hfields : ∀ fs, fields (make fs) = fs) (hsend : ∀ v, t.Sendable v ↔ u.Sendable (fields v))
    (haccept : ∀ v, t.Accepted v ↔ u.Accepted (fields v)) :
    @WireLaws α (wireStruct fields make) t := by
  let _ : Wire α := wireStruct fields make
  refine ⟨fun v => ?_, h.isLocal.bind fun fs => local_pure _⟩
  obtain ⟨x, hne, hx⟩ := h.encoding (fields v)
  refine ⟨x, hne, fun hv => ?_, fun hv => hx.fails fun hfs => hv ((hsend v).mpr hfs),
    fun input rest hok => ?_⟩
  · rw [← hmake, propext (haccept v)]
    exact (hx.carries ((hsend v).mp hv)).map make
  · obtain ⟨fs, hfs, rfl⟩ := reader_map_eq_ok.mp hok
    rw [hfields] at hx
    obtain ⟨hinput, hs, ha, hr⟩ := hx.only input rest hfs
    rw [hsend, haccept, hfields, ← hmake, hfields, hr]
    exact ⟨hinput, hs, ha, rfl⟩

/-- The laws of a structure whose fields cross unchanged. -/
lemma wireLaws_wireStruct [Wire β] [LawfulWire β] {fields : α → β} {make : β → α}
    (hmake : ∀ v, make (fields v) = v := by exact fun _ => rfl)
    (hfields : ∀ fs, fields (make fs) = fs := by exact fun _ => rfl) :
    @WireLaws α (wireStruct fields make) .exact :=
  WireLaws.struct LawfulWire.laws hmake hfields (fun _ => Iff.rfl) fun _ => Iff.rfl

/-- What becomes of the values of a variant is what becomes of its fields. -/
def VariantLaws (t : Transfer α) (c : Variant α) : Prop :=
  ∃ u : Transfer c.Fields, @FieldLaws c.Fields c.wire u ∧ t.Along u c.make

/-- Variants whose fields cross unchanged. -/
class LawfulVariants (variants : List (Variant α)) : Prop where
  laws : ∀ c ∈ variants, VariantLaws .exact c

instance : LawfulVariants ([] : List (Variant α)) := ⟨fun _ h => absurd h List.not_mem_nil⟩

instance {c : Variant α} {variants : List (Variant α)} [h : @LawfulFields c.Fields c.wire]
    [LawfulVariants variants] : LawfulVariants (c :: variants) where
  laws := by
    have hc : VariantLaws .exact c := ⟨.exact, h.laws, .refl _⟩
    exact List.forall_mem_cons.mpr ⟨hc, LawfulVariants.laws⟩

/-- The variants have different tags and every value is of exactly one of them. -/
structure Variants (variants : List (Variant α)) : Prop where
  tags : (variants.map Variant.tag).Nodup
  covers : ∀ v, variants.countP (fun c => (c.fields? v).isSome) = 1

/-- A value is of one variant only. -/
lemma Variants.unique {variants : List (Variant α)} (h : Variants variants) {c d : Variant α}
    {v : α} (hc : c ∈ variants) (hd : d ∈ variants) (hcv : (c.fields? v).isSome)
    (hdv : (d.fields? v).isSome) : d = c := by
  have hcount := h.covers v
  rw [List.countP_eq_length_filter] at hcount
  obtain ⟨only, honly⟩ := List.length_eq_one_iff.mp hcount
  have heq : ∀ e ∈ variants, (e.fields? v).isSome → e = only := by
    intro e he hev
    have hmem : e ∈ variants.filter fun c => (c.fields? v).isSome := List.mem_filter.mpr ⟨he, hev⟩
    rw [honly] at hmem
    exact List.mem_singleton.mp hmem
  rw [heq c hc hcv, heq d hd hdv]

lemma Variant.isSome_fields? (c : Variant α) (fs : c.Fields) :
    (c.fields? (c.make fs)).isSome := by
  rw [c.fields?_make]
  rfl

/-- A value is written as its variant. -/
lemma Variants.write_eq {variants : List (Variant α)} (h : Variants variants) {c : Variant α}
    (hc : c ∈ variants) (fs : c.Fields) :
    (wireEnum variants).write (c.make fs) = c.writeFields fs := by
  have hwrite : c.write? (c.make fs) = some (c.writeFields fs) := by
    rw [Variant.write?, c.fields?_make, Option.map_some]
  have hfind : variants.findSome? (fun d => d.write? (c.make fs)) = c.write? (c.make fs) := by
    cases hsome : variants.findSome? fun d => d.write? (c.make fs) with
    | none =>
      rw [List.findSome?_eq_none_iff] at hsome
      exact (hsome c hc).symm
    | some w =>
      obtain ⟨d, hd, hdw⟩ := List.exists_of_findSome?_eq_some hsome
      have hcover : (d.fields? (c.make fs)).isSome := by
        rw [← Option.isSome_map, ← Variant.write?, hdw]
        rfl
      rw [← hdw, h.unique hc hd (c.isSome_fields? fs) hcover]
  change (variants.findSome? fun d => d.write? (c.make fs)).getD _ = _
  rw [hfind, hwrite]
  rfl

/-- A tag is that of its variant. -/
lemma Variants.find?_tag {variants : List (Variant α)} (h : Variants variants) {c : Variant α}
    (hc : c ∈ variants) : variants.find? (fun d => d.tag = c.tag) = some c := by
  cases hfind : variants.find? fun d => d.tag = c.tag with
  | none =>
    have hne := List.find?_eq_none.mp hfind c hc
    exact absurd (decide_eq_true (rfl : c.tag = c.tag)) hne
  | some d =>
    have hfound := List.find?_some hfind
    have htag : d.tag = c.tag := of_decide_eq_true hfound
    rw [List.inj_on_of_nodup_map h.tags (List.mem_of_find?_eq_some hfind) hc htag]

/-- The laws of an enumeration follow from those of its variants. -/
lemma WireLaws.enum {t : Transfer α} {variants : List (Variant α)} (h : Variants variants)
    (hlaws : ∀ c ∈ variants, VariantLaws t c) : @WireLaws α (wireEnum variants) t := by
  let _ : Wire α := wireEnum variants
  refine ⟨fun v => ?_, local_byte.bind fun tag => ?_⟩
  · have hcount : 0 < variants.countP fun c => (c.fields? v).isSome := by
      rw [h.covers v]
      exact Nat.one_pos
    obtain ⟨c, hc, hcv⟩ := List.countP_pos_iff.mp hcount
    obtain ⟨fs, hfs⟩ := Option.isSome_iff_exists.mp hcv
    obtain ⟨u, hu, halong⟩ := hlaws c hc
    let _ : Wire c.Fields := c.wire
    obtain ⟨x, hx⟩ := hu.encoding fs
    have hv := c.make_of_fields? v fs hfs
    rw [← hv]
    refine ⟨c.tag :: x, List.cons_ne_nil _ _, hx.tagged c.make (h.write_eq hc fs) rfl ?_
      (fun tag htag input rest hok => ?_) (fun fs' heq => ?_) halong⟩
    · rw [h.find?_tag hc]
      rfl
    · cases hfind : variants.find? fun d => d.tag = tag with
      | none =>
        rw [hfind] at hok
        exact not_reader_throw_eq_ok hok
      | some d =>
        rw [hfind] at hok
        obtain ⟨other, -, heq⟩ := reader_map_eq_ok.mp hok
        have hd := List.mem_of_find?_eq_some hfind
        have hfound := List.find?_some hfind
        have hdv := d.isSome_fields? other
        rw [heq] at hdv
        rw [h.unique hc hd (c.isSome_fields? fs) hdv] at hfound
        exact htag (of_decide_eq_true hfound).symm
    · have hsome := c.fields?_make fs'
      rw [heq, c.fields?_make] at hsome
      exact (Option.some.inj hsome).symm
  · cases hfind : variants.find? fun d => d.tag = tag with
    | none => exact local_throw _
    | some d =>
      obtain ⟨u, hu, -⟩ := hlaws d (List.mem_of_find?_eq_some hfind)
      let _ : Wire d.Fields := d.wire
      exact hu.isLocal.bind fun _ => local_pure _

/-- The laws of an enumeration whose fields cross unchanged. -/
lemma wireLaws_wireEnum {variants : List (Variant α)} [LawfulVariants variants]
    (htags : (variants.map Variant.tag).Nodup := by decide)
    (hcovers : ∀ v, variants.countP (fun c => (c.fields? v).isSome) = 1 := by
      intro v
      cases v <;> rfl) :
    @WireLaws α (wireEnum variants) .exact :=
  WireLaws.enum ⟨htags, hcovers⟩ LawfulVariants.laws

end Procinsh.Ipc
