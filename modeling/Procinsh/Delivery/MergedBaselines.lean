import Procinsh.Delivery.Forwarding

/-!
# The baselines of the page of all hosts

The page keeps one baseline for each host name and accepts a delta when its base sequence is the
sequence of the baseline.  Two forwarders of one name number their snapshots alike, so the check
tells their deltas apart only as long as the numbers differ: a delta that a forwarder has encoded,
but sends after the first snapshot of its successor, is accepted on the baseline of the successor.

Apart from such stray deltas every delta is applied to the merged state of the snapshot that its
forwarder encoded before.  The invariant says which message the baseline of a host was merged from:
the last snapshot of that host that the page has handled since the host was listed as offline.
-/

namespace Procinsh

/-! ## What the stream has handed to the page -/

/-- The message that an event carries. -/
def ResponseEvent.message? : ResponseEvent → Option MergedMessage
  | message m => some m
  | hosts _ _ | links _ => none

/-- The messages among the events. -/
def yielded (events : List ResponseEvent) : List MergedMessage :=
  events.filterMap ResponseEvent.message?

@[simp] lemma yielded_append (events events' : List ResponseEvent) :
    yielded (events ++ events') = yielded events ++ yielded events' := List.filterMap_append

/-- A snapshot that the page has been handed. -/
structure Posted where
  origin : Origin
  sequence : Option Json
  deriving DecidableEq

/-- The last snapshot of a host, after an event; a host that is offline has none. -/
def follow (host : Option Json) (last : Option Posted) : ResponseEvent → Option Posted
  | .message m =>
    if m.isSnapshot ∧ m.data.field? "host" = host then
      some ⟨m.origin, m.data.field? "sequence"⟩
    else last
  | .hosts _ hosts =>
    if host ∈ (offlineHosts hosts).map fun name => some (.string name) then none else last
  | .links _ => last

/-- The last snapshot of a host among the events, since the host was listed as offline. -/
def lastSnapshot (events : List ResponseEvent) (host : Option Json) : Option Posted :=
  events.foldl (follow host) none

lemma lastSnapshot_concat (events : List ResponseEvent) (e : ResponseEvent) (host : Option Json) :
    lastSnapshot (events ++ [e]) host = follow host (lastSnapshot events host) e :=
  List.foldl_concat ..

/-- A delta that follows a snapshot of another forwarder with the sequence that it is based on. -/
def Stray (before : List ResponseEvent) (m : MergedMessage) : Prop :=
  m.isSnapshot ∧ m.data.field? "kind" = some (.string "delta") ∧
    ∃ last ∈ lastSnapshot before (m.data.field? "host"),
      last.origin.forwarder ≠ m.origin.forwarder ∧
        last.sequence = m.data.field? "base_sequence"

instance (before : List ResponseEvent) (m : MergedMessage) : Decidable (Stray before m) :=
  inferInstanceAs (Decidable (_ ∧ _ ∧ _))

/-- The last snapshot of the host of a forwarder, if it comes from the forwarder, is the last one
that the forwarder has sent. -/
private lemma positions_of_lastSnapshot {events : List ResponseEvent} {host : Option Json} {k : ℕ}
    (hhost : ∀ m ∈ yielded events, m.isSnapshot → m.origin.forwarder = k →
      m.data.field? "host" = host) {last : Posted} (hlast : lastSnapshot events host = some last)
    (hk : last.origin.forwarder = k) :
    ∃ front, positions k (yielded events) = front ++ [last.origin.position] := by
  induction events using List.reverseRecOn with
  | nil => cases hlast
  | append_singleton events e ih =>
    rw [lastSnapshot_concat] at hlast
    have hhost' : ∀ m ∈ yielded events, m.isSnapshot → m.origin.forwarder = k →
        m.data.field? "host" = host := fun m hm => hhost m (by simp [hm])
    cases e with
    | message m =>
      rw [follow] at hlast
      have hevents : yielded (events ++ [.message m]) = yielded events ++ [m] := yielded_append ..
      split at hlast
      · next hm =>
        obtain rfl := Option.some.inj hlast
        refine ⟨positions k (yielded events), ?_⟩
        rw [hevents, positions_append, positions_singleton_of_snapshot hm.1 hk]
      · next hm =>
        -- a snapshot of the forwarder would have been one of the host
        have hnone : positions k [m] = [] := by
          refine positions_eq_nil fun m' hm' hsnapshot hk' => ?_
          obtain rfl := List.mem_singleton.mp hm'
          exact hm ⟨hsnapshot, hhost m' (by simp [hevents]) hsnapshot hk'⟩
        rw [hevents, positions_append, hnone, List.append_nil]
        exact ih hhost' hlast
    | hosts localName hosts =>
      have hevents : yielded (events ++ [.hosts localName hosts]) = yielded events :=
        (yielded_append ..).trans (List.append_nil _)
      rw [follow] at hlast
      split at hlast
      · cases hlast
      · rw [hevents]
        exact ih hhost' hlast
    | links links =>
      have hevents : yielded (events ++ [.links links]) = yielded events :=
        (yielded_append ..).trans (List.append_nil _)
      rw [hevents]
      exact ih hhost' hlast

/-- The number at a place of a range. -/
private lemma eq_length_of_range {n x : ℕ} {front rest : List ℕ}
    (h : List.range n = front ++ x :: rest) : x = front.length := by
  have hget : (List.range n)[front.length]? = some x := by rw [h]; simp
  have hlt : front.length < n := by
    have hlength := congrArg List.length h
    simp only [List.length_range, List.length_append, List.length_cons] at hlength
    omega
  rw [List.getElem?_range hlt] at hget
  exact (Option.some.inj hget).symm

/-- The snapshot that a forwarder receives in an action. -/
def MergedAction.snapshot? : MergedAction → Option Json
  | receive _ event _ => event.snapshot?
  | _ => none

namespace MergedState

variable {s t : MergedState} {a : MergedAction} {correlate : List (String × Json) → Json}

/-! ## Steps -/

/-- The page and what it has been handed stay. -/
structure KeepsPage (s t : MergedState) : Prop where
  response : t.response = s.response
  handled : t.handled = s.handled
  page : t.page = s.page

/-- The forwarders and the channel stay. -/
structure KeepsForwarders (s t : MergedState) : Prop where
  forwarders : t.forwarders = s.forwarders
  incoming : t.incoming = s.incoming

/-- What an action does to the forwarders, the channel, the response and the page. -/
inductive MergedStep (s : MergedState) (a : MergedAction) (t : MergedState) : Prop
  | stay (hforwarders : KeepsForwarders s t) (hpage : KeepsPage s t)
  | start (hforwarders : t.forwarders = s.forwardLinks.forwarders)
      (hincoming : t.incoming = s.incoming) (hpage : KeepsPage s t)
  | stage (k : ℕ) (f : Forwarder) (stage : ForwarderStage) (hk : s.forwarders[k]? = some f)
      (hforwarders : t.forwarders = s.forwarders.set k { f with stage := stage })
      (hincoming : t.incoming = s.incoming) (hpage : KeepsPage s t)
  | receive (k : ℕ) (f f' : Forwarder) (event : MonitorEvent) (now : ℕ)
      (haction : a = .receive k event now) (hk : s.forwarders[k]? = some f)
      (hidle : f.messages = []) (hencode : f.encode k event now = some f')
      (hforwarders : t.forwarders = s.forwarders.set k f')
      (hincoming : t.incoming = s.incoming) (hpage : KeepsPage s t)
  | send (k : ℕ) (f : Forwarder) (message : MergedMessage) (messages : List MergedMessage)
      (hk : s.forwarders[k]? = some f) (hmessages : f.messages = message :: messages)
      (hforwarders : t.forwarders = s.forwarders.set k { f with messages := messages })
      (hincoming : t.incoming = s.incoming ++ [message]) (hpage : KeepsPage s t)
  | take (message : MergedMessage) (haction : a = .takeMessage)
      (hforwarders : t.forwarders = s.forwarders)
      (hincoming : s.incoming = message :: t.incoming)
      (hresponse : t.response = s.response ++ [.message message])
      (hhandled : t.handled = s.handled) (hpage : t.page = s.page)
  | announce (e : ResponseEvent) (he : e.message? = none) (hforwarders : KeepsForwarders s t)
      (hresponse : t.response = s.response ++ [e]) (hhandled : t.handled = s.handled)
      (hpage : t.page = s.page)
  | handle (e : ResponseEvent) (hconnected : s.page.connected = true)
      (hnext : s.response[s.handled]? = some e) (hforwarders : KeepsForwarders s t)
      (hresponse : t.response = s.response) (hhandled : t.handled = s.handled + 1)
      (hpage : t.page = s.page.handle e)

/-- Forwarding links touches neither the channel nor the page. -/
private lemma foldl_forwardLink_keeps (links : List (String × ℕ)) (s : MergedState) :
    (links.foldl (fun s e => s.forwardLink e.1 e.2) s).incoming = s.incoming ∧
      KeepsPage s (links.foldl (fun s e => s.forwardLink e.1 e.2) s) := by
  induction links generalizing s with
  | nil => exact ⟨rfl, rfl, rfl, rfl⟩
  | cons link links ih =>
    have hlink : (s.forwardLink link.1 link.2).incoming = s.incoming ∧
        KeepsPage s (s.forwardLink link.1 link.2) := by
      rw [forwardLink]
      split <;> exact ⟨rfl, rfl, rfl, rfl⟩
    obtain ⟨hincoming, hpage⟩ := ih (s.forwardLink link.1 link.2)
    exact ⟨hincoming.trans hlink.1, hpage.response.trans hlink.2.response,
      hpage.handled.trans hlink.2.handled, hpage.page.trans hlink.2.page⟩

/-- What each action does. -/
lemma merged_step (hstep : s.step correlate a = some t) : MergedStep s a t := by
  cases effect_of_step hstep with
  | change change => exact .stay ⟨rfl, rfl⟩ ⟨rfl, rfl, rfl⟩
  | startForwarders hstage =>
    obtain ⟨hincoming, hpage⟩ := foldl_forwardLink_keeps s.registry.online s
    exact .start rfl hincoming ⟨hpage.response, hpage.handled, hpage.page⟩
  | listHosts now hstage => exact .announce _ rfl ⟨rfl, rfl⟩ rfl rfl rfl
  | takeMessage hstage hincoming => exact .take _ rfl rfl hincoming rfl rfl rfl
  | links hstage hlinks => exact .announce _ rfl ⟨rfl, rfl⟩ rfl rfl rfl
  | sameLinks hstage hlinks => exact .stay ⟨rfl, rfl⟩ ⟨rfl, rfl, rfl⟩
  | observed hk hstage => exact .stage _ _ .forwarding hk rfl rfl ⟨rfl, rfl, rfl⟩
  | refused hk hstage => exact .stage _ _ .ended hk rfl rfl ⟨rfl, rfl, rfl⟩
  | receive hk hstage hidle hencode =>
    exact .receive _ _ _ _ _ rfl hk hidle hencode rfl rfl ⟨rfl, rfl, rfl⟩
  | panic hk hstage hidle hencode => exact .stage _ _ .ended hk rfl rfl ⟨rfl, rfl, rfl⟩
  | send hk hstage hmessages hcapacity =>
    exact .send _ _ _ _ hk hmessages rfl rfl ⟨rfl, rfl, rfl⟩
  | finish hk hstage hidle => exact .stage _ _ .ended hk rfl rfl ⟨rfl, rfl, rfl⟩
  | handle hconnected hnext => exact .handle _ hconnected hnext ⟨rfl, rfl⟩ rfl rfl rfl

/-! ## The forwarders -/

/-- The messages that the page has been handed, and those in the channel behind them. -/
def line (s : MergedState) : List MergedMessage := yielded s.response ++ s.incoming

/-- The snapshot that a forwarder receives in an action is complete. -/
def SnapshotComplete (a : MergedAction) : Prop :=
  ∀ s, a.snapshot? = some s → CompleteHostSnapshot s

/-- Starting forwarders keeps what holds of all. -/
private lemma foldl_forwardLink_inv (links : List (String × ℕ)) {s : MergedState}
    {line : List MergedMessage} (h : ForwardingInv s.forwarders line) :
    Continue s.forwarders (links.foldl (fun s e => s.forwardLink e.1 e.2) s).forwarders ∧
      ForwardingInv (links.foldl (fun s e => s.forwardLink e.1 e.2) s).forwarders line := by
  induction links generalizing s with
  | nil => exact ⟨continue_refl _, h⟩
  | cons link links ih =>
    have hlink : Continue s.forwarders (s.forwardLink link.1 link.2).forwarders ∧
        ForwardingInv (s.forwardLink link.1 link.2).forwarders line := by
      rw [forwardLink]
      split
      · exact ⟨continue_refl _, h⟩
      · exact h.start link.1 .observing
    obtain ⟨hcontinue, hinv⟩ := ih hlink.2
    exact ⟨hlink.1.trans hcontinue, hinv⟩

/-- What holds of the forwarders is kept by every step with complete snapshots. -/
lemma forwarding_step (h : ForwardingInv s.forwarders s.line) (hcomplete : SnapshotComplete a)
    (hstep : s.step correlate a = some t) :
    Continue s.forwarders t.forwarders ∧ ForwardingInv t.forwarders t.line := by
  have hline : t.response = s.response → t.incoming = s.incoming → t.line = s.line :=
    fun hresponse hincoming => by rw [line, line, hresponse, hincoming]
  cases merged_step hstep with
  | stay hforwarders hpage =>
    rw [hforwarders.forwarders, hline hpage.response hforwarders.incoming]
    exact ⟨continue_refl _, h⟩
  | start hforwarders hincoming hpage =>
    rw [hforwarders, hline hpage.response hincoming]
    exact foldl_forwardLink_inv _ h
  | stage k f stage hk hforwarders hincoming hpage =>
    rw [hforwarders, hline hpage.response hincoming]
    exact h.stage hk stage
  | receive k f f' event now haction hk hidle hencode hforwarders hincoming hpage =>
    rw [hforwarders, hline hpage.response hincoming]
    obtain ⟨f'', hencode', hreceives⟩ := Forwarder.encode_receives (h.forwarder k f hk) k
      (by rw [haction] at hcomplete; exact hcomplete) now
    obtain rfl : f'' = f' := Option.some.inj (hencode'.symm.trans hencode)
    exact h.receive hk hidle hreceives
  | send k f message messages hk hmessages hforwarders hincoming hpage =>
    have hline' : t.line = s.line ++ [message] := by
      rw [line, line, hpage.response, hincoming, List.append_assoc]
    rw [hforwarders, hline']
    exact h.send hk hmessages
  | take message haction hforwarders hincoming hresponse hhandled hpage =>
    have hline' : t.line = s.line := by
      rw [line, line, hresponse, yielded_append, List.append_assoc, hincoming]
      rfl
    rw [hforwarders, hline']
    exact ⟨continue_refl _, h⟩
  | announce e he hforwarders hresponse hhandled hpage =>
    have hline' : t.line = s.line := by
      have hyielded : yielded [e] = [] := List.filterMap_eq_nil_iff.mpr fun e' he' => by
        rw [List.mem_singleton.mp he', he]
      rw [line, line, hresponse, yielded_append, hyielded, List.append_nil, hforwarders.incoming]
    rw [hforwarders.forwarders, hline']
    exact ⟨continue_refl _, h⟩
  | handle e hconnected hnext hforwarders hresponse hhandled hpage =>
    rw [hforwarders.forwarders, hline hresponse hforwarders.incoming]
    exact ⟨continue_refl _, h⟩

/-! ## The page -/

/-- What the page has been handed for a host that it keeps. -/
def posted (held : HostSnapshot) : Posted := ⟨held.origin, held.snapshot.field? "sequence"⟩

/-- A kept snapshot is the merged state of the one that its forwarder has encoded. -/
def Kept (forwarders : List Forwarder) (host : Option Json) (held : HostSnapshot) : Prop :=
  ∃ f e, forwarders[held.origin.forwarder]? = some f ∧ host = some (.string f.host) ∧
    f.encoded[held.origin.position]? = some e ∧ Baseline e.encoder e.snapshot held.snapshot

/-- What holds of the page when no stray delta is handed to it. -/
structure PageInv (s : MergedState) : Prop where
  le : s.handled ≤ s.response.length
  kept : ∀ host held, s.page.hostSnapshots.get? host = some held → Kept s.forwarders host held
  last : s.page.connected = true → ∀ host,
    (s.page.hostSnapshots.get? host).map posted = lastSnapshot (s.response.take s.handled) host
  straight : ∀ (j : ℕ) m, s.response[j]? = some (.message m) → ¬ Stray (s.response.take j) m

/-- Kept snapshots stay. -/
lemma Kept.mono {forwarders forwarders' : List Forwarder} {host : Option Json}
    {held : HostSnapshot} (h : Kept forwarders host held)
    (hcontinue : Continue forwarders forwarders') : Kept forwarders' host held := by
  obtain ⟨f, e, hf, hhost, he, hbaseline⟩ := h
  obtain ⟨f', hf', hhost', rest, hencoded⟩ := hcontinue _ f hf
  refine ⟨f', e, hf', by rw [hhost', hhost], ?_, hbaseline⟩
  rw [← hencoded, List.getElem?_append_left (List.getElem?_eq_some_iff.mp he).1, he]

/-- The page can merge a full snapshot into whatever it keeps of a host. -/
lemma PageInv.receiverReady (h : PageInv s) (host : Option Json) :
    ReceiverReady (s.page.baseline host) := by
  rw [Page.baseline]
  cases hget : s.page.hostSnapshots.get? host with
  | none => exact ⟨[], rfl, nofun⟩
  | some held =>
    obtain ⟨f, e, -, -, -, hbaseline⟩ := h.kept host held hget
    exact hbaseline.agrees.receiverReady hbaseline.complete

/-- A delta that is merged has the sequence of the baseline as its base. -/
private lemma sequence_of_merge {previous update merged : Json}
    (hkind : update.field? "kind" = some (.string "delta"))
    (hmerge : mergeSnapshot previous update = .ok merged) :
    previous.field? "sequence" ≠ none ∧
      update.field? "base_sequence" = previous.field? "sequence" := by
  by_contra hnot
  have hmismatch : previous.field? "sequence" = none ∨
      update.field? "base_sequence" ≠ previous.field? "sequence" := by
    by_contra hboth
    push Not at hboth
    exact hnot hboth
  have hcheck : checkUpdate previous update = .error "Snapshot baseline mismatch" := by
    rw [checkUpdate, hkind]
    exact if_pos hmismatch
  rw [mergeSnapshot, hcheck] at hmerge
  cases hmerge

/-- The snapshots of the forwarder before the next one stand in the line before it. -/
private lemma position_of_last (hforwarding : ForwardingInv s.forwarders s.line)
    {m : MergedMessage} {j : ℕ} (hnext : s.response[j]? = some (.message m))
    (hm : m.isSnapshot) {host : Option Json} (hhost : m.data.field? "host" = host) {last : Posted}
    (hlast : lastSnapshot (s.response.take j) host = some last)
    (hforwarder : last.origin.forwarder = m.origin.forwarder) :
    m.origin.position = last.origin.position + 1 := by
  have hsplit : s.response = s.response.take j ++ .message m :: s.response.drop (j + 1) := by
    obtain ⟨hlt, hget⟩ := List.getElem?_eq_some_iff.mp hnext
    rw [← hget, List.getElem_cons_drop, List.take_append_drop]
  have hyielded : yielded s.response =
      yielded (s.response.take j) ++ m :: yielded (s.response.drop (j + 1)) := by
    conv_lhs => rw [hsplit, yielded_append]
    rfl
  obtain ⟨f, hf, full, old, output, encoder, e, hencoded⟩ :=
    hforwarding.sent m (by simp [line, hyielded]) hm
  -- all snapshots of the forwarder are of its host
  obtain ⟨front, hfront⟩ := positions_of_lastSnapshot (fun m' hm' hsnapshot hforwarder' => by
    obtain ⟨f', hf', full', old', output', encoder', e', hencoded'⟩ :=
      hforwarding.sent m' (by simp [line, hyielded, hm']) hsnapshot
    rw [hforwarder', hf] at hf'
    obtain rfl := Option.some.inj hf'
    rw [hencoded'.host, ← hhost, hencoded.host]) hlast hforwarder
  have hnumbered := hforwarding.numbered _ f hf
  have hpositions : positions m.origin.forwarder (s.line ++ f.messages) =
      (front ++ [last.origin.position]) ++ m.origin.position ::
        positions m.origin.forwarder
          (yielded (s.response.drop (j + 1)) ++ s.incoming ++ f.messages) := by
    have hline : s.line ++ f.messages = yielded (s.response.take j) ++ ([m] ++
        (yielded (s.response.drop (j + 1)) ++ s.incoming ++ f.messages)) := by
      simp [line, hyielded]
    rw [hline, positions_append, hfront, positions_append, positions_singleton_of_snapshot hm rfl]
    rfl
  rw [hpositions] at hnumbered
  have hlength := eq_length_of_range hnumbered.symm
  rw [List.append_assoc] at hnumbered
  have hbefore := eq_length_of_range hnumbered.symm
  rw [List.length_append, List.length_singleton] at hlength
  rw [hlength, hbefore]

/-- What the page keeps when it accepts the next snapshot: the merged state of that snapshot; for a
delta, it kept the merged state of the snapshot before. -/
lemma accepted (hforwarding : ForwardingInv s.forwarders s.line) (h : PageInv s)
    (hconnected : s.page.connected = true) {m : MergedMessage}
    (hnext : s.response[s.handled]? = some (.message m)) (hm : m.isSnapshot) {merged : Json}
    (hmerge : s.page.merge m = .ok merged) :
    ∃ f full old output encoder e, s.forwarders[m.origin.forwarder]? = some f ∧
      EncodedBy f m full old output encoder e ∧ Baseline e.encoder e.snapshot merged ∧
      (full = false → ∃ held, s.page.hostSnapshots.get? (some (.string f.host)) = some held ∧
        held.origin.forwarder = m.origin.forwarder ∧
        m.origin.position = held.origin.position + 1 ∧ Baseline encoder old held.snapshot) := by
  have hmem : m ∈ yielded s.response :=
    List.mem_filterMap.mpr ⟨_, List.mem_of_getElem? hnext, rfl⟩
  obtain ⟨f, hf, full, old, output, encoder, e, hencoded⟩ :=
    hforwarding.sent m (List.mem_append_left _ hmem) hm
  rw [Page.merge, hencoded.host, hencoded.update] at hmerge
  -- the baseline of a delta
  have hbefore : full = false → ∃ held,
      s.page.hostSnapshots.get? (some (.string f.host)) = some held ∧
        held.origin.forwarder = m.origin.forwarder ∧
        m.origin.position = held.origin.position + 1 ∧ Baseline encoder old held.snapshot := by
    intro hfull
    have hkind : output.field? "kind" = some (.string "delta") := by
      rw [hencoded.message.kind, hfull]
      rfl
    obtain ⟨hsome, hbase⟩ := sequence_of_merge hkind hmerge
    cases hget : s.page.hostSnapshots.get? (some (.string f.host)) with
    | none =>
      rw [Page.baseline, hget] at hsome
      exact absurd rfl hsome
    | some held =>
      rw [Page.baseline, hget] at hbase
      have hlast : lastSnapshot (s.response.take s.handled) (some (.string f.host)) =
          some (posted held) := by
        rw [← h.last hconnected, hget]
        rfl
      -- the baseline is not one of another forwarder, as the delta is not stray
      have hforwarder : held.origin.forwarder = m.origin.forwarder := by
        by_contra hne
        refine h.straight s.handled m hnext ⟨hm, ?_, posted held, ?_, hne, ?_⟩
        · rw [hencoded.field (by decide), hkind]
        · rw [hencoded.host]
          exact hlast
        · rw [hencoded.field (by decide), hbase]
          rfl
      have hposition : m.origin.position = held.origin.position + 1 :=
        position_of_last hforwarding hnext hm hencoded.host hlast hforwarder
      obtain ⟨i, hi, hprevious⟩ := hencoded.previous hfull
      obtain ⟨f', e', hf', -, he', hbaseline⟩ := h.kept _ held hget
      rw [hforwarder, hf] at hf'
      obtain rfl := Option.some.inj hf'
      rw [show held.origin.position = i by omega, hprevious] at he'
      obtain rfl := Option.some.inj he'
      exact ⟨held, rfl, hforwarder, hposition, hbaseline⟩
  have hbaseline : full = false →
      Baseline encoder old (s.page.baseline (some (.string f.host))) := by
    intro hfull
    obtain ⟨held, hget, -, -, hbaseline⟩ := hbefore hfull
    rw [Page.baseline, hget]
    exact hbaseline
  obtain ⟨merged', hmerge', hmerged⟩ := merge_message hencoded.complete.complete hencoded.message
    (h.receiverReady _) hbaseline
  obtain rfl : merged' = merged := Except.ok.inj (hmerge'.symm.trans hmerge)
  exact ⟨f, full, old, output, encoder, e, hf, hencoded, hmerged, hbefore⟩

/-! ## Runs without stray deltas -/

/-- The stream does not hand a stray delta to the page. -/
def NoStrayDelta (s : MergedState) (a : MergedAction) : Prop :=
  a = .takeMessage → ∀ m ∈ s.incoming.head?, ¬ Stray s.response m

instance (s : MergedState) (a : MergedAction) : Decidable (s.NoStrayDelta a) :=
  inferInstanceAs (Decidable (_ → _))

/-- Steps of the others keep what holds of the page. -/
private lemma PageInv.keep (h : PageInv s) (hcontinue : Continue s.forwarders t.forwarders)
    (hpage : KeepsPage s t) : PageInv t := by
  obtain ⟨hresponse, hhandled, hpage⟩ := hpage
  refine ⟨?_, fun host held hget => ?_, ?_, ?_⟩
  · rw [hresponse, hhandled]
    exact h.le
  · rw [hpage] at hget
    exact (h.kept host held hget).mono hcontinue
  · rw [hpage, hresponse, hhandled]
    exact h.last
  · rw [hresponse]
    exact h.straight

/-- Yielding an event that is not a stray delta keeps what holds of the page. -/
private lemma PageInv.yield (h : PageInv s) {e : ResponseEvent}
    (he : ∀ m, e = .message m → ¬ Stray s.response m)
    (hcontinue : Continue s.forwarders t.forwarders) (hresponse : t.response = s.response ++ [e])
    (hhandled : t.handled = s.handled) (hpage : t.page = s.page) : PageInv t := by
  have htake : ∀ j ≤ s.response.length, t.response.take j = s.response.take j := fun j hj => by
    rw [hresponse, List.take_append_of_le_length hj]
  refine ⟨?_, fun host held hget => ?_, ?_, fun j m hm => ?_⟩
  · rw [hresponse, hhandled, List.length_append]
    exact h.le.trans (Nat.le_add_right _ _)
  · rw [hpage] at hget
    exact (h.kept host held hget).mono hcontinue
  · rw [hpage, hhandled, htake _ h.le]
    exact h.last
  · rw [hresponse] at hm
    rcases Nat.lt_trichotomy j s.response.length with hlt | rfl | hgt
    · rw [List.getElem?_append_left hlt] at hm
      rw [htake j hlt.le]
      exact h.straight j m hm
    · rw [htake _ le_rfl, List.take_length]
      refine he m ?_
      simpa using hm
    · rw [List.getElem?_eq_none (by simp; omega)] at hm
      cases hm

/-- What the page has been handed, after one more event. -/
private lemma lastSnapshot_take_succ {e : ResponseEvent} (hnext : s.response[s.handled]? = some e)
    (host : Option Json) : lastSnapshot (s.response.take (s.handled + 1)) host =
      follow host (lastSnapshot (s.response.take s.handled) host) e := by
  rw [List.take_add_one, hnext, ← lastSnapshot_concat]
  rfl

/-- The page keeps what it accepts. -/
private lemma PageInv.accept (hforwarding : ForwardingInv s.forwarders s.line) (h : PageInv s)
    (hconnected : s.page.connected = true) {m : MergedMessage}
    (hnext : s.response[s.handled]? = some (.message m)) (hm : m.isSnapshot) {merged : Json}
    (hmerge : s.page.merge m = .ok merged) (host : Option Json) :
    (∀ held, (s.page.hostSnapshots.set (m.data.field? "host") ⟨merged, m.origin⟩).get? host =
        some held → Kept s.forwarders host held) ∧
      ((s.page.hostSnapshots.set (m.data.field? "host") ⟨merged, m.origin⟩).get? host).map posted =
        lastSnapshot (s.response.take (s.handled + 1)) host := by
  obtain ⟨f, full, old, output, encoder, e, hf, hencoded, hbaseline, -⟩ :=
    accepted hforwarding h hconnected hnext hm hmerge
  rw [lastSnapshot_take_succ hnext, follow]
  by_cases hhost : m.data.field? "host" = host
  · subst hhost
    have hsequence : merged.field? "sequence" = m.data.field? "sequence" := by
      rw [hencoded.field (by decide), hbaseline.sequence, hencoded.message.sequence]
    rw [OrderedMap.get?_set_self, if_pos ⟨hm, rfl⟩]
    refine ⟨fun held hheld => ?_, by rw [Option.map_some, posted, hsequence]⟩
    obtain rfl := Option.some.inj hheld
    exact ⟨f, e, hf, hencoded.host, hencoded.encoded, hbaseline⟩
  · rw [OrderedMap.get?_set_ne _ (Ne.symm hhost), if_neg fun hboth => hhost hboth.2]
    exact ⟨h.kept host, h.last hconnected host⟩

/-- Handling an event keeps what holds of the page. -/
private lemma PageInv.handle (hforwarding : ForwardingInv s.forwarders s.line) (h : PageInv s)
    {e : ResponseEvent} (hconnected : s.page.connected = true)
    (hnext : s.response[s.handled]? = some e) (hforwarders : t.forwarders = s.forwarders)
    (hresponse : t.response = s.response) (hhandled : t.handled = s.handled + 1)
    (hpage : t.page = s.page.handle e) : PageInv t := by
  have hlt : s.handled < s.response.length := (List.getElem?_eq_some_iff.mp hnext).1
  -- it remains to say what is kept and what was last
  have hinv : (∀ host held, t.page.hostSnapshots.get? host = some held →
      Kept s.forwarders host held) ∧ (t.page.connected = true → ∀ host,
        (t.page.hostSnapshots.get? host).map posted =
          lastSnapshot (s.response.take (s.handled + 1)) host) := by
    rw [hpage]
    cases e with
    | message m =>
      rw [Page.handle]
      split
      · next hm =>
        rw [Page.handleSnapshot]
        split
        · next merged hmerge =>
          have haccept := fun host => h.accept hforwarding hconnected hnext hm hmerge host
          exact ⟨fun host => (haccept host).1, fun _ host => (haccept host).2⟩
        · -- the page connects anew and keeps nothing
          refine ⟨fun host held hget => ?_, fun hconnected => ?_⟩
          · cases hget
          · cases hconnected
      · next hm =>
        refine ⟨h.kept, fun _ host => ?_⟩
        rw [lastSnapshot_take_succ hnext, follow, if_neg fun hboth => hm hboth.1]
        exact h.last hconnected host
    | hosts localName hosts =>
      rw [Page.handle]
      refine ⟨fun host held hget => ?_, fun _ host => ?_⟩
      · rw [OrderedMap.get?_eraseAll] at hget
        split at hget
        · cases hget
        · exact h.kept host held hget
      · rw [OrderedMap.get?_eraseAll, lastSnapshot_take_succ hnext, follow]
        split
        · rfl
        · exact h.last hconnected host
    | links links =>
      refine ⟨h.kept, fun _ host => ?_⟩
      rw [lastSnapshot_take_succ hnext]
      exact h.last hconnected host
  refine ⟨by rw [hresponse, hhandled]; exact hlt, ?_, ?_, by rw [hresponse]; exact h.straight⟩
  · rw [hforwarders]
    exact hinv.1
  · rw [hresponse, hhandled]
    exact hinv.2

/-- What holds of the page is kept by every step that hands it no stray delta. -/
lemma page_step (hforwarding : ForwardingInv s.forwarders s.line) (h : PageInv s)
    (hguard : s.NoStrayDelta a) (hcomplete : SnapshotComplete a)
    (hstep : s.step correlate a = some t) : PageInv t := by
  have hcontinue := (forwarding_step hforwarding hcomplete hstep).1
  cases merged_step hstep with
  | stay _ hpage => exact h.keep hcontinue hpage
  | start _ _ hpage => exact h.keep hcontinue hpage
  | stage _ _ _ _ _ _ hpage => exact h.keep hcontinue hpage
  | receive _ _ _ _ _ _ _ _ _ _ _ hpage => exact h.keep hcontinue hpage
  | send _ _ _ _ _ _ _ _ hpage => exact h.keep hcontinue hpage
  | take message haction hforwarders hincoming hresponse hhandled hpage =>
    refine h.yield (fun m hm => hguard haction m ?_) hcontinue hresponse hhandled hpage
    rw [hincoming, ← ResponseEvent.message.inj hm]
    rfl
  | announce e he hforwarders hresponse hhandled hpage =>
    refine h.yield (fun m hm => ?_) hcontinue hresponse hhandled hpage
    rw [hm] at he
    cases he
  | handle e hconnected hnext hforwarders hresponse hhandled hpage =>
    exact h.handle hforwarding hconnected hnext hforwarders.forwarders hresponse hhandled hpage

/-- The message that the page handles next. -/
def nextMessage? (s : MergedState) : Option MergedMessage :=
  if s.page.connected then s.response[s.handled]?.bind ResponseEvent.message? else none

lemma nextMessage?_eq_some {m : MergedMessage} : s.nextMessage? = some m ↔
    s.page.connected = true ∧ s.response[s.handled]? = some (.message m) := by
  have hmessage : ∀ e, ResponseEvent.message? e = some m ↔ e = .message m := by
    intro e
    cases e <;> simp [ResponseEvent.message?]
  rw [nextMessage?]
  split
  · next hconnected => simp [hconnected, Option.bind_eq_some_iff, hmessage]
  · next hconnected => simp [hconnected]

/-- A delta that the page accepts next is applied to the merged state of the snapshot that its
forwarder encoded before, and the page then has the snapshot that the forwarder encoded with it. -/
def OwnBaseline (s : MergedState) : Prop :=
  ∀ m merged, s.nextMessage? = some m → m.isSnapshot →
    m.data.field? "kind" = some (.string "delta") → s.page.merge m = .ok merged →
    ∃ f held old new, s.forwarders[m.origin.forwarder]? = some f ∧
      m.data.field? "host" = some (.string f.host) ∧
      s.page.hostSnapshots.get? (some (.string f.host)) = some held ∧
      held.origin.forwarder = m.origin.forwarder ∧
      m.origin.position = held.origin.position + 1 ∧
      f.encoded[held.origin.position]? = some old ∧
      Agrees old.encoder.epochs held.snapshot old.snapshot ∧
      f.encoded[m.origin.position]? = some new ∧ Agrees new.encoder.epochs merged new.snapshot

/-- Accepted deltas have their own baselines. -/
private lemma ownBaseline_of_inv (hforwarding : ForwardingInv s.forwarders s.line)
    (h : PageInv s) : s.OwnBaseline := by
  intro m merged hmessage hm hkind hmerge
  obtain ⟨hconnected, hnext⟩ := nextMessage?_eq_some.mp hmessage
  obtain ⟨f, full, old, output, encoder, e, hf, hencoded, hmerged, hbefore⟩ :=
    accepted hforwarding h hconnected hnext hm hmerge
  have hfull : full = false := by
    rw [hencoded.field (by decide), hencoded.message.kind] at hkind
    cases full with
    | true => simp at hkind
    | false => rfl
  obtain ⟨held, hget, hforwarder, hposition, hbaseline⟩ := hbefore hfull
  obtain ⟨i, hi, hprevious⟩ := hencoded.previous hfull
  rw [show i = held.origin.position by omega] at hprevious
  exact ⟨f, held, ⟨old, encoder⟩, e, hf, hencoded.host, hget, hforwarder, hposition, hprevious,
    hbaseline.agrees, hencoded.encoded, hmerged.agrees⟩

/-- The invariants hold of a new stream. -/
private lemma inv_new (registry : HostRegistry) :
    ForwardingInv (new registry).forwarders (new registry).line ∧ PageInv (new registry) := by
  have hempty : ForwardingInv [] [] := ⟨nofun, nofun, nofun, nofun⟩
  exact ⟨(hempty.start registry.localHost.name .forwarding).2,
    ⟨Nat.le_refl _, nofun, fun _ _ => rfl, nofun⟩⟩

/-- In runs in which the stream never hands a stray delta to the page, every accepted delta is
applied to the merged state of the snapshot that the same forwarder encoded before, and gives the
page the snapshot that was encoded with it. -/
theorem own_baseline_of_noStrayDelta {registry : HostRegistry} {as : List MergedAction}
    (hcomplete : ∀ s ∈ as.filterMap MergedAction.snapshot?, CompleteHostSnapshot s)
    (hguard : Guarded NoStrayDelta (step correlate) (new registry) as)
    (hrun : run (step correlate) (new registry) as = some s) : s.OwnBaseline := by
  have hactions : ∀ a ∈ as, SnapshotComplete a := fun a ha s hs =>
    hcomplete s (List.mem_filterMap.mpr ⟨a, ha, hs⟩)
  have hinv : ForwardingInv s.forwarders s.line ∧ PageInv s := by
    refine guarded_invariant (I := fun s => ForwardingInv s.forwarders s.line ∧ PageInv s)
      (fun s a t hs hboth hstep => ?_) (inv_new registry) (hguard.and_forall hactions) hrun
    exact ⟨(forwarding_step hs.1 hboth.2 hstep).2,
      page_step hs.1 hs.2 hboth.1 hboth.2 hstep⟩
  exact ownBaseline_of_inv hinv.1 hinv.2

/-! ## A run with a stray delta -/

/-- A snapshot of one process with one map. -/
def sampleHostSnapshot (start : String) : Json :=
  .object [("device_handles", .array []), ("fd_relations", .array []),
    ("hardware_devices", .array []), ("hardware_paths", .array []),
    ("processes", .array [.object [("identity", processIdentity 42 7),
      ("maps", .array [.object [("start", .string start)]]), ("maps_epoch", .int 1)]]),
    ("rdma_ports", .array []), ("rdma_relations", .array [])]

/-- The sample is complete. -/
private lemma sampleHostSnapshot_complete {start : String} {n : ℤ}
    (hstart : bigInt (some (.string start)) = some n) :
    CompleteHostSnapshot (sampleHostSnapshot start) := by
  have hmaps : CompleteMaps [.object [("start", .string start)]] := by
    refine ⟨fun m hm => ⟨start, n, ?_, hstart⟩, List.pairwise_singleton _ _⟩
    rw [List.mem_singleton.mp hm]
    rfl
  refine ⟨⟨rfl, fun f hf => ?_, fun p hp => ?_, List.nodup_singleton _, fun f hf => ?_,
    fun f hf => ?_⟩, rfl⟩
  · simp only [collectionFields, wholeFields, List.mem_cons, List.cons_append, List.nil_append,
      List.not_mem_nil, or_false] at hf
    rcases hf with rfl | rfl | rfl | rfl | rfl | rfl | rfl <;> rfl
  · obtain rfl := List.mem_singleton.mp hp
    exact ⟨rfl, ⟨42, 7, rfl⟩, rfl, hmaps, ⟨1, rfl⟩, rfl⟩
  · have hentries : entries (sampleHostSnapshot start) f = [] := by
      simp only [collectionFields, List.mem_cons, List.not_mem_nil, or_false] at hf
      rcases hf with rfl | rfl | rfl <;> rfl
    rw [hentries]
    exact ⟨fun v hv => absurd hv List.not_mem_nil, List.nodup_nil⟩
  · simp only [messageFields, List.mem_cons, List.not_mem_nil, or_false] at hf
    rcases hf with rfl | rfl | rfl | rfl | rfl | rfl <;> rfl

/-- The samples of two links of one agent, before and after its process has mapped anew. -/
private lemma samples_complete : ∀ s ∈ [sampleHostSnapshot "0x1000", sampleHostSnapshot "0x1000",
    sampleHostSnapshot "0x2000"], CompleteHostSnapshot s := by
  have hbefore : CompleteHostSnapshot (sampleHostSnapshot "0x1000") :=
    sampleHostSnapshot_complete (n := 4096) (by decide)
  have hafter : CompleteHostSnapshot (sampleHostSnapshot "0x2000") :=
    sampleHostSnapshot_complete (n := 8192) (by decide)
  simp [hbefore, hafter]

/-- A hub without agents. -/
def hubRegistry : HostRegistry := .new ⟨"hub", "hub-machine", "1", none, "x86_64"⟩ 0

/-- An agent connects, and the forwarder `k` of its link has a session. -/
def connectAgent (k : ℕ) : List MergedAction :=
  [.change (.insertHost ⟨"agent", "agent-machine", "1", none, "x86_64"⟩ k k 0), .startForwarders,
    .listHosts 0, .observed k]

/-- A forwarder receives a snapshot and sends it to the page. -/
def forwardSample (k : ℕ) (start : String) (now : ℕ) : List MergedAction :=
  [.receive k (.snapshot (sampleHostSnapshot start)) now, .send k, .takeMessage]

/-- Two links that the page sees one after the other: the first forwarder ends before the second
one starts. -/
def successiveLinks : List MergedAction :=
  connectAgent 1 ++ forwardSample 1 "0x1000" 0 ++ forwardSample 1 "0x1000" 1 ++ [.finish 1] ++
    connectAgent 2 ++ forwardSample 2 "0x2000" 2 ++ [.handle, .handle]

/-- The delta of the first of two successive links is applied to the snapshot before it. -/
theorem own_baseline_of_successiveLinks :
    ∃ s, run (step fun _ => .null) (new hubRegistry) successiveLinks = some s ∧ s.OwnBaseline := by
  have hcomplete : ∀ s ∈ successiveLinks.filterMap MergedAction.snapshot?,
      CompleteHostSnapshot s := samples_complete
  exact ⟨(run (step fun _ => .null) (new hubRegistry) successiveLinks).get (by decide +kernel),
    (Option.some_get _).symm, own_baseline_of_noStrayDelta hcomplete (by decide +kernel)
      (Option.some_get _).symm⟩

/-- Two links that overlap: the first forwarder has encoded a delta when the agent connects anew,
and sends it after the first snapshot of the second forwarder. -/
def overlappingLinks : List MergedAction :=
  connectAgent 1 ++ forwardSample 1 "0x1000" 0 ++
    [.receive 1 (.snapshot (sampleHostSnapshot "0x1000")) 1] ++ connectAgent 2 ++
    forwardSample 2 "0x2000" 2 ++ [.send 1, .takeMessage, .handle, .handle, .handle, .handle]

/-- Whether the page accepts a delta next whose baseline comes from another forwarder. -/
def acceptsForeign (s : MergedState) : Bool :=
  s.nextMessage?.any fun m =>
    decide (m.isSnapshot ∧ m.data.field? "kind" = some (.string "delta")) &&
      (s.page.merge m).toBool &&
      (s.page.hostSnapshots.get? (m.data.field? "host")).any fun held =>
        held.origin.forwarder ≠ m.origin.forwarder

private lemma not_ownBaseline_of_acceptsForeign (h : s.acceptsForeign = true) :
    ¬ s.OwnBaseline := by
  intro hown
  obtain ⟨m, hmessage, h⟩ := (Option.any_eq_true _ _).mp h
  simp only [Bool.and_eq_true, decide_eq_true_eq] at h
  obtain ⟨⟨⟨hm, hkind⟩, hmerge⟩, hforeign⟩ := h
  obtain ⟨held, hget, hne⟩ := (Option.any_eq_true _ _).mp hforeign
  cases hmerged : s.page.merge m with
  | error e =>
    rw [hmerged] at hmerge
    cases hmerge
  | ok merged =>
    obtain ⟨f, held', -, -, -, hhost, hget', hforwarder, -⟩ :=
      hown m merged hmessage hm hkind hmerged
    rw [hhost, hget'] at hget
    obtain rfl := Option.some.inj hget
    exact of_decide_eq_true hne hforwarder

/-- The page accepts the delta of the first of two overlapping links on the baseline of the
second. -/
theorem foreign_baseline_of_overlappingLinks :
    ∃ as s, (∀ s ∈ as.filterMap MergedAction.snapshot?, CompleteHostSnapshot s) ∧
      run (step fun _ => .null) (new hubRegistry) as = some s ∧ ¬ s.OwnBaseline :=
  ⟨overlappingLinks,
    (run (step fun _ => .null) (new hubRegistry) overlappingLinks).get (by decide +kernel),
    samples_complete, (Option.some_get _).symm,
    not_ownBaseline_of_acceptsForeign (by decide +kernel)⟩

end MergedState

end Procinsh
