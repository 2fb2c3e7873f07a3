import Procinsh.Delivery.Lossless
import Procinsh.Delivery.MergedStream
import Procinsh.Foundation.Tasks

/-!
# What the forwarders of the merged stream send

A forwarder sends the snapshots that it encodes one after another: in the line of the channel and
of the response, its snapshot messages stand in the order in which they were encoded, each with the
message of `SnapshotEncoder` for that snapshot.  A delta is based on the snapshot that the same
forwarder encoded before it.

These facts hold for each forwarder alone, however the steps of several forwarders interleave.
-/

namespace Procinsh

/-! ## Messages -/

/-- Whether a message carries a snapshot. -/
def MergedMessage.isSnapshot (m : MergedMessage) : Prop := m.name = "snapshot"

instance (m : MergedMessage) : Decidable m.isSnapshot := inferInstanceAs (Decidable (_ = _))

/-- A complete snapshot of a host; only messages name the host. -/
structure CompleteHostSnapshot (s : Json) : Prop where
  complete : CompleteSnapshot s
  unnamed : s.field? "host" = none

/-- The message carries the output of the encoder of `f` for the snapshot `e`; `old` is the snapshot
and `encoder` the encoder before it. -/
structure EncodedBy (f : Forwarder) (m : MergedMessage) (full : Bool) (old output : Json)
    (encoder : SnapshotEncoder) (e : Encoded) : Prop where
  encoded : f.encoded[m.origin.position]? = some e
  data : m.data = attachHostIdentity f.host output
  complete : CompleteHostSnapshot e.snapshot
  message : SnapshotMessage full old e.snapshot output encoder e.encoder
  previous : full = false → ∃ i, m.origin.position = i + 1 ∧ f.encoded[i]? = some ⟨old, encoder⟩

namespace EncodedBy

variable {f : Forwarder} {m : MergedMessage} {full : Bool} {old output : Json}
  {encoder : SnapshotEncoder} {e : Encoded}

/-- The message names the host of its forwarder. -/
lemma host (h : EncodedBy f m full old output encoder e) :
    m.data.field? "host" = some (.string f.host) := by
  rw [h.data]
  exact Json.field?_setField_self h.message.object _ _

/-- The other fields are those of the output. -/
lemma field (h : EncodedBy f m full old output encoder e) {k : String} (hk : k ≠ "host") :
    m.data.field? k = output.field? k := by
  rw [h.data]
  exact Json.field?_setField_ne _ hk _

/-- Without the name of the host, the message is the output. -/
lemma update (h : EncodedBy f m full old output encoder e) : m.data.removeField "host" = output := by
  have hmissing : output.field? "host" = none := by
    rw [h.message.field "host" (by decide)]
    exact h.complete.unnamed
  rw [h.data]
  exact Json.removeField_setField_of_field?_eq_none hmissing _

/-- What a forwarder has encoded stays. -/
lemma mono {f' : Forwarder} (h : EncodedBy f m full old output encoder e)
    (hhost : f'.host = f.host) (hencoded : f.encoded <+: f'.encoded) :
    EncodedBy f' m full old output encoder e := by
  have hkeep : ∀ (i : ℕ) x, f.encoded[i]? = some x → f'.encoded[i]? = some x := by
    intro i x hx
    obtain ⟨rest, hrest⟩ := hencoded
    rw [← hrest, List.getElem?_append_left (List.getElem?_eq_some_iff.mp hx).1, hx]
  refine ⟨hkeep _ _ h.encoded, by rw [h.data, hhost], h.complete, h.message, fun hfull => ?_⟩
  obtain ⟨i, hi, hprevious⟩ := h.previous hfull
  exact ⟨i, hi, hkeep _ _ hprevious⟩

end EncodedBy

/-- A snapshot message is one that its forwarder has encoded. -/
def Genuine (forwarders : List Forwarder) (m : MergedMessage) : Prop :=
  m.isSnapshot → ∃ f, forwarders[m.origin.forwarder]? = some f ∧
    ∃ full old output encoder e, EncodedBy f m full old output encoder e

/-- A forwarder keeps its host and what it has encoded. -/
def Forwarder.Continues (f f' : Forwarder) : Prop :=
  f'.host = f.host ∧ f.encoded <+: f'.encoded

/-- Every forwarder keeps its host and what it has encoded. -/
def Continue (forwarders forwarders' : List Forwarder) : Prop :=
  ∀ (k : ℕ) f, forwarders[k]? = some f → ∃ f', forwarders'[k]? = some f' ∧ f.Continues f'

lemma continue_refl (forwarders : List Forwarder) : Continue forwarders forwarders :=
  fun _ f hf => ⟨f, hf, rfl, List.prefix_rfl⟩

lemma Continue.trans {forwarders forwarders' forwarders'' : List Forwarder}
    (h : Continue forwarders forwarders') (h' : Continue forwarders' forwarders'') :
    Continue forwarders forwarders'' := by
  intro k f hf
  obtain ⟨f', hf', hhost, hencoded⟩ := h k f hf
  obtain ⟨f'', hf'', hhost', hencoded'⟩ := h' k f' hf'
  exact ⟨f'', hf'', hhost'.trans hhost, hencoded.trans hencoded'⟩

/-- Genuine messages stay genuine. -/
lemma Genuine.mono {forwarders forwarders' : List Forwarder} {m : MergedMessage}
    (h : Genuine forwarders m) (hcontinue : Continue forwarders forwarders') :
    Genuine forwarders' m := by
  intro hm
  obtain ⟨f, hf, full, old, output, encoder, e, hencoded⟩ := h hm
  obtain ⟨f', hf', hhost, hprefix⟩ := hcontinue _ f hf
  exact ⟨f', hf', full, old, output, encoder, e, hencoded.mono hhost hprefix⟩

/-- The positions of the snapshots of the forwarder `k` among the messages. -/
def positions (k : ℕ) (messages : List MergedMessage) : List ℕ :=
  (messages.filter fun m => m.isSnapshot ∧ m.origin.forwarder = k).map fun m => m.origin.position

@[simp] lemma positions_nil (k : ℕ) : positions k [] = [] := rfl

@[simp] lemma positions_append (k : ℕ) (messages messages' : List MergedMessage) :
    positions k (messages ++ messages') = positions k messages ++ positions k messages' := by
  simp [positions]

/-- A snapshot message of the forwarder counts. -/
lemma positions_singleton_of_snapshot {k : ℕ} {m : MergedMessage} (hm : m.isSnapshot)
    (hk : m.origin.forwarder = k) : positions k [m] = [m.origin.position] := by
  simp [positions, hm, hk]

/-- The messages of another forwarder do not count. -/
lemma positions_eq_nil {k : ℕ} {messages : List MergedMessage}
    (h : ∀ m ∈ messages, m.isSnapshot → m.origin.forwarder ≠ k) : positions k messages = [] := by
  have hfilter : (messages.filter fun m => m.isSnapshot ∧ m.origin.forwarder = k) = [] := by
    refine List.filter_eq_nil_iff.mpr fun m hm hboth => ?_
    have hboth := of_decide_eq_true hboth
    exact h m hm hboth.1 hboth.2
  rw [positions, hfilter, List.map_nil]

/-! ## One forwarder -/

/-- The encoder of a forwarder stands after the snapshot that was encoded last, and fits a receiver
of all its messages. -/
structure ForwarderInv (f : Forwarder) : Prop where
  stream : ∃ m, StreamInv (f.delivery, m)
  last : ∀ s, f.delivery.previous = some s → f.encoded.getLast? = some ⟨s, f.delivery⟩

/-- A new forwarder. -/
lemma forwarderInv_new (host : String) (stage : ForwarderStage) :
    ForwarderInv (.new host stage) :=
  ⟨⟨emptySnapshot, Or.inl rfl⟩, nofun⟩

/-- The last of the snapshots that have been encoded. -/
private lemma getElem?_of_getLast? {α : Type*} {l : List α} {x : α} (h : l.getLast? = some x) :
    ∃ i, l.length = i + 1 ∧ l[i]? = some x := by
  obtain ⟨front, rfl⟩ := List.getLast?_eq_some_iff.mp h
  exact ⟨front.length, by simp, by simp⟩

/-- What a forwarder does when it has encoded an event. -/
structure Receives (k : ℕ) (f f' : Forwarder) : Prop where
  host : f'.host = f.host
  encoded : f.encoded <+: f'.encoded
  inv : ForwarderInv f'
  own : ∀ m ∈ f'.messages, m.origin.forwarder = k ∧ (m.isSnapshot →
    ∃ full old output encoder e, EncodedBy f' m full old output encoder e)
  numbered : List.range f.encoded.length ++ positions k f'.messages =
    List.range f'.encoded.length

/-- The encoding of a complete snapshot, as the message and what the forwarder has encoded then. -/
private lemma encode_snapshot {f : Forwarder} (hf : ForwarderInv f) (k : ℕ) {s : Json}
    (hs : CompleteHostSnapshot s) (forceFull : Bool) (now : ℕ) (front : List MergedMessage)
    (hfront : ∀ m ∈ front, m.origin.forwarder = k ∧ ¬ m.isSnapshot) :
    ∃ encoded, f.delivery.encode s forceFull now = some encoded ∧
      Receives k f { f with
        delivery := encoded.2
        messages := front ++
          [⟨"snapshot", attachHostIdentity f.host encoded.1, ⟨k, f.encoded.length⟩⟩]
        encoded := f.encoded ++ [⟨s, encoded.2⟩] } := by
  obtain ⟨m, hstream⟩ := hf.stream
  obtain ⟨old, output, encoder', m', hencode, hmessage, hprevious, -, hbaseline⟩ :=
    hstream.message hs.complete forceFull now
  refine ⟨(output, encoder'), hencode, rfl, List.prefix_append _ _, ⟨⟨m', ?_⟩, ?_⟩, ?_, ?_⟩
  · exact Or.inr ⟨s, hmessage.previous, hbaseline⟩
  · intro s' hs'
    obtain rfl : s = s' := Option.some.inj (hmessage.previous.symm.trans hs')
    exact List.getLast?_concat
  · intro message hmessages
    rcases List.mem_append.mp hmessages with hmem | hmem
    · exact ⟨(hfront message hmem).1, fun hsnapshot => absurd hsnapshot (hfront message hmem).2⟩
    · obtain rfl := List.mem_singleton.mp hmem
      refine ⟨rfl, fun _ => ⟨_, old, output, f.delivery, ⟨s, encoder'⟩, by simp, rfl, hs, hmessage,
        fun hfull => ?_⟩⟩
      obtain ⟨i, hi, hlast⟩ := getElem?_of_getLast? (hf.last old (hprevious hfull))
      refine ⟨i, hi, ?_⟩
      rw [List.getElem?_append_left (by omega), hlast]
  · have hpositions : positions k front = [] :=
      positions_eq_nil fun m hm hsnapshot => absurd hsnapshot (hfront m hm).2
    have hlast : positions k [⟨"snapshot", attachHostIdentity f.host output,
        ⟨k, f.encoded.length⟩⟩] = [f.encoded.length] := positions_singleton_of_snapshot rfl rfl
    rw [positions_append, hpositions, List.nil_append, hlast, List.length_append,
      List.length_singleton, List.range_succ]

/-- An event without a snapshot is passed on. -/
private lemma receives_plain {f : Forwarder} (hf : ForwarderInv f) (k : ℕ) {name : String}
    (hname : name ≠ "snapshot") (data : Json) :
    Receives k f { f with messages := [⟨name, data, ⟨k, f.encoded.length⟩⟩] } := by
  refine ⟨rfl, List.prefix_rfl, ⟨hf.stream, hf.last⟩, fun m hm => ?_, ?_⟩
  · obtain rfl := List.mem_singleton.mp hm
    exact ⟨rfl, fun hsnapshot => absurd hsnapshot hname⟩
  · have hpositions : positions k [⟨name, data, ⟨k, f.encoded.length⟩⟩] = [] := by
      refine positions_eq_nil fun m hm hsnapshot => ?_
      obtain rfl := List.mem_singleton.mp hm
      exact absurd hsnapshot hname
    rw [hpositions, List.append_nil]

/-- A forwarder encodes every event whose snapshot is complete. -/
lemma Forwarder.encode_receives {f : Forwarder} (hf : ForwarderInv f) (k : ℕ)
    {event : MonitorEvent} (hevent : ∀ s, event.snapshot? = some s → CompleteHostSnapshot s)
    (now : ℕ) : ∃ f', f.encode k event now = some f' ∧ Receives k f f' := by
  cases event with
  | observation data =>
    refine ⟨_, rfl, ?_⟩
    simpa [MonitorEvent.snapshot?] using receives_plain hf k
      (show "observation" ≠ "snapshot" by decide) (attachHostIdentity f.host data)
  | activity data =>
    refine ⟨_, rfl, ?_⟩
    simpa [MonitorEvent.snapshot?] using receives_plain hf k
      (show "activity" ≠ "snapshot" by decide) (attachHostIdentity f.host data)
  | snapshot s =>
    obtain ⟨encoded, hencode, hreceives⟩ :=
      encode_snapshot hf k (hevent s rfl) false now [] nofun
    refine ⟨_, by rw [Forwarder.encode, encodeSseEvents, hencode]; rfl, ?_⟩
    exact hreceives
  | gap dropped s =>
    obtain ⟨encoded, hencode, hreceives⟩ := encode_snapshot hf k (hevent s rfl) true now
      [⟨"gap", attachHostIdentity f.host (.object [("dropped_frames", .int dropped.toNat)]),
        ⟨k, f.encoded.length⟩⟩] fun m hm => by
          obtain rfl := List.mem_singleton.mp hm
          exact ⟨rfl, by simp [MergedMessage.isSnapshot]⟩
    refine ⟨_, by rw [Forwarder.encode, encodeSseEvents, hencode]; rfl, ?_⟩
    exact hreceives

/-! ## All forwarders -/

/-- What holds of the forwarders and the line of messages that they have sent. -/
structure ForwardingInv (forwarders : List Forwarder) (line : List MergedMessage) : Prop where
  forwarder : ∀ (k : ℕ) f, forwarders[k]? = some f → ForwarderInv f
  own : ∀ (k : ℕ) f, forwarders[k]? = some f → ∀ m ∈ f.messages,
    m.origin.forwarder = k ∧ Genuine forwarders m
  sent : ∀ m ∈ line, Genuine forwarders m
  numbered : ∀ (k : ℕ) f, forwarders[k]? = some f →
    positions k (line ++ f.messages) = List.range f.encoded.length

namespace ForwardingInv

variable {forwarders : List Forwarder} {line : List MergedMessage} {k : ℕ} {f : Forwarder}

/-- A forwarder is started. -/
lemma start (h : ForwardingInv forwarders line) (host : String) (stage : ForwarderStage) :
    Continue forwarders (forwarders ++ [.new host stage]) ∧
      ForwardingInv (forwarders ++ [.new host stage]) line := by
  have hevolves : Evolves (fun _ => Forwarder.Continues) (fun f => f = .new host stage) forwarders
      (forwarders ++ [.new host stage]) :=
    Evolves.append (fun _ _ => ⟨rfl, List.prefix_rfl⟩) rfl
  have hcontinue : Continue forwarders (forwarders ++ [.new host stage]) := hevolves.old
  -- a forwarder of the new list is an old one, or the new one
  have hcases : ∀ (j : ℕ) g, (forwarders ++ [.new host stage])[j]? = some g →
      forwarders[j]? = some g ∨ forwarders[j]? = none ∧ g = .new host stage := by
    intro j g hg
    rcases Nat.lt_or_ge j forwarders.length with hlt | hge
    · left
      rwa [List.getElem?_append_left hlt] at hg
    · right
      rcases hevolves.inv hg with ⟨g', hg', -⟩ | hnew
      · rw [List.getElem?_eq_none_iff.mpr hge] at hg'
        cases hg'
      · exact hnew
  refine ⟨hcontinue, fun j g hg => ?_, fun j g hg m hm => ?_,
    fun m hm => (h.sent m hm).mono hcontinue, fun j g hg => ?_⟩
  · rcases hcases j g hg with hold | ⟨-, rfl⟩
    · exact h.forwarder j g hold
    · exact forwarderInv_new host stage
  · rcases hcases j g hg with hold | ⟨-, rfl⟩
    · exact ⟨(h.own j g hold m hm).1, (h.own j g hold m hm).2.mono hcontinue⟩
    · cases hm
  · rcases hcases j g hg with hold | ⟨hnone, rfl⟩
    · exact h.numbered j g hold
    · -- no message was sent in the name of the new forwarder
      have hline : positions j line = [] := by
        refine positions_eq_nil fun m hm hsnapshot hj => ?_
        obtain ⟨g, hg, -⟩ := h.sent m hm hsnapshot
        rw [hj, hnone] at hg
        cases hg
      simpa [Forwarder.new] using hline

/-- A forwarder moves on and sends some of its messages. -/
lemma set (h : ForwardingInv forwarders line) (f' : Forwarder) (sent : List MergedMessage)
    (hk : forwarders[k]? = some f) (hhost : f'.host = f.host) (hencoded : f.encoded <+: f'.encoded)
    (hinv : ForwarderInv f') (hown : ∀ m ∈ f'.messages, m ∈ f.messages ∨
      m.origin.forwarder = k ∧ (m.isSnapshot →
        ∃ full old output encoder e, EncodedBy f' m full old output encoder e))
    (hsent : ∀ m ∈ sent, m ∈ f.messages)
    (hnumbered : positions k (line ++ sent ++ f'.messages) = List.range f'.encoded.length) :
    Continue forwarders (forwarders.set k f') ∧
      ForwardingInv (forwarders.set k f') (line ++ sent) := by
  have hcontinue : Continue forwarders (forwarders.set k f') :=
    (Evolves.set (R := fun _ => Forwarder.Continues) (N := fun _ => False)
      (fun _ _ _ => ⟨rfl, List.prefix_rfl⟩) hk ⟨hhost, hencoded⟩).old
  have hlt : k < forwarders.length := (List.getElem?_eq_some_iff.mp hk).1
  have hself : (forwarders.set k f')[k]? = some f' := List.getElem?_set_self hlt
  have hother : ∀ (j : ℕ) g, j ≠ k → (forwarders.set k f')[j]? = some g → forwarders[j]? = some g :=
    fun j g hj hg => by rwa [List.getElem?_set_ne (Ne.symm hj)] at hg
  have hcases : ∀ (j : ℕ) g, (forwarders.set k f')[j]? = some g →
      j = k ∧ g = f' ∨ j ≠ k ∧ forwarders[j]? = some g := by
    intro j g hg
    by_cases hj : j = k
    · subst hj
      exact Or.inl ⟨rfl, Option.some.inj (hg.symm.trans hself)⟩
    · exact Or.inr ⟨hj, hother j g hj hg⟩
  refine ⟨hcontinue, fun j g hg => ?_, fun j g hg m hm => ?_, fun m hm => ?_, fun j g hg => ?_⟩
  · rcases hcases j g hg with ⟨-, rfl⟩ | ⟨-, hold⟩
    · exact hinv
    · exact h.forwarder j g hold
  · rcases hcases j g hg with ⟨rfl, rfl⟩ | ⟨-, hold⟩
    · rcases hown m hm with hmem | ⟨horigin, hgenuine⟩
      · exact ⟨(h.own _ f hk m hmem).1, (h.own _ f hk m hmem).2.mono hcontinue⟩
      · exact ⟨horigin, fun hsnapshot => ⟨_, by rw [horigin]; exact hself, hgenuine hsnapshot⟩⟩
    · exact ⟨(h.own j g hold m hm).1, (h.own j g hold m hm).2.mono hcontinue⟩
  · rcases List.mem_append.mp hm with hm | hm
    · exact (h.sent m hm).mono hcontinue
    · exact (h.own k f hk m (hsent m hm)).2.mono hcontinue
  · rcases hcases j g hg with ⟨rfl, rfl⟩ | ⟨hj, hold⟩
    · exact hnumbered
    · -- what `k` sends does not count for `j`
      have hnone : positions j sent = [] := positions_eq_nil fun m hm _ hforwarder =>
        hj (hforwarder.symm.trans (h.own k f hk m (hsent m hm)).1)
      have hold := h.numbered j g hold
      rw [positions_append] at hold
      rw [positions_append, positions_append, hnone, List.append_nil, hold]

/-- A forwarder changes its stage. -/
lemma stage (h : ForwardingInv forwarders line) (hk : forwarders[k]? = some f)
    (stage : ForwarderStage) :
    Continue forwarders (forwarders.set k { f with stage := stage }) ∧
      ForwardingInv (forwarders.set k { f with stage := stage }) line := by
  have hset := h.set { f with stage := stage } [] hk rfl List.prefix_rfl
    ⟨(h.forwarder k f hk).stream, (h.forwarder k f hk).last⟩ (fun m hm => Or.inl hm) nofun
    (by rw [List.append_nil]; exact h.numbered k f hk)
  rwa [List.append_nil] at hset

/-- A forwarder that has sent all its messages encodes an event. -/
lemma receive {f' : Forwarder} (h : ForwardingInv forwarders line) (hk : forwarders[k]? = some f)
    (hidle : f.messages = []) (hreceives : Receives k f f') :
    Continue forwarders (forwarders.set k f') ∧ ForwardingInv (forwarders.set k f') line := by
  have hbefore : positions k line = List.range f.encoded.length := by
    have hnumbered := h.numbered k f hk
    rwa [hidle, List.append_nil] at hnumbered
  have hset := h.set f' [] hk hreceives.host hreceives.encoded hreceives.inv
    (fun m hm => Or.inr (hreceives.own m hm)) nofun
    (by rw [List.append_nil, positions_append, hbefore, hreceives.numbered])
  rwa [List.append_nil] at hset

/-- A forwarder sends its next message. -/
lemma send (h : ForwardingInv forwarders line) (hk : forwarders[k]? = some f) {m : MergedMessage}
    {messages : List MergedMessage} (hmessages : f.messages = m :: messages) :
    Continue forwarders (forwarders.set k { f with messages := messages }) ∧
      ForwardingInv (forwarders.set k { f with messages := messages }) (line ++ [m]) := by
  refine h.set { f with messages := messages } [m] hk rfl List.prefix_rfl
    ⟨(h.forwarder k f hk).stream, (h.forwarder k f hk).last⟩ (fun m' hm' => Or.inl ?_)
    (fun m' hm' => ?_) ?_
  · rw [hmessages]
    exact List.mem_cons_of_mem m hm'
  · rw [hmessages, List.mem_singleton.mp hm']
    exact List.mem_cons_self
  · have hnumbered := h.numbered k f hk
    rwa [hmessages, List.append_cons] at hnumbered

end ForwardingInv

end Procinsh
