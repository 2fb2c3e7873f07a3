import Mathlib.Data.List.Infix
import Procinsh.Observation.Histories

/-!
# Sessions do not touch one another's histories

All sessions share the maps of one processor, which are emptied when they are full.  As long as every
session that keeps something there is closed by `MonitorClient::close`, only open sessions keep
something, the maps never fill up, and every session is answered as if it were alone.  A `Close`
request is answered without the processor being told: what the session keeps stays, and the sessions
that are open later lose theirs once the maps are full.
-/

namespace Procinsh

open Ipc

/-! ## Runs -/

/-- What happens to a session: it is started, a poll is answered, it is closed by the client, or a
`Close` request is answered. -/
inductive ObservationAction
  | started (request : MonitorRequest) (session : UInt64) (initial : ObservedValue)
  | polled (session : UInt64) (event : Option ObservedValue) (ended : Bool)
  | closed (session : UInt64) (inUse : Bool)
  | closeAnswered (session : UInt64)

namespace ObservationAction

def session : ObservationAction → UInt64
  | started _ session _ | polled session _ _ | closed session _ | closeAnswered session => session

def isStart : ObservationAction → Bool
  | started _ _ _ => true
  | _ => false

def isReply : ObservationAction → Bool
  | started _ _ _ | polled _ _ _ => true
  | _ => false

def isClose : ObservationAction → Bool
  | closed _ _ | closeAnswered _ => true
  | _ => false

/-- The value of a reply. -/
def value? : ObservationAction → Option ObservedValue
  | started _ _ initial => some initial
  | polled _ event _ => event
  | _ => none

/-- The sample in a reply to a session. -/
def sampleOf (session : UInt64) (a : ObservationAction) : Option ProcessSample :=
  if a.session = session then a.value?.bind ObservedValue.historySample else none

/-- The reply leaves something of its session in the processor. -/
def Keeps (a : ObservationAction) : Prop :=
  ∃ value, a.value? = some value ∧ (value.historySample ≠ none ∨ value.rawActivity ≠ none)

end ObservationAction

/-- The sessions that are open after an action. -/
def openAfter (sessions : List UInt64) : ObservationAction → List UInt64
  | .started _ session _ => sessions ++ [session]
  | .polled _ _ _ => sessions
  | .closed session _ | .closeAnswered session => sessions.filter fun s => s ≠ session

def openSessions (as : List ObservationAction) : List UInt64 := as.foldl openAfter []

/-- The samples of a session. -/
def samplesOf (session : UInt64) (as : List ObservationAction) : List ProcessSample :=
  as.filterMap (ObservationAction.sampleOf session)

/-- The replies to a session. -/
def repliesTo (session : UInt64) (as : List ObservationAction) : List ObservationAction :=
  as.filter fun a => a.isReply && a.session = session

/-- Sessions are started once, and used only while they are open; at most 32 are open at a time; and
the samples of a session are of one process, in the order in which they were measured. -/
structure ValidRun (as : List ObservationAction) : Prop where
  fresh : ((as.filter ObservationAction.isStart).map ObservationAction.session).Nodup
  used : ∀ before a, before ++ [a] <+: as → a.isStart = false → a.session ∈ openSessions before
  bounded : ∀ before, before <+: as → (openSessions before).length ≤ 32
  measured : ∀ session, Measured (samplesOf session as)

section Runs

variable (floats : Floats) (ticksPerSecond : ℕ)

namespace ReplyClient

def step (client : ReplyClient) : ObservationAction → ReplyClient × Option Processed
  | .started request session initial =>
    client.request floats ticksPerSecond request (.started session initial)
  | .polled session event ended =>
    client.request floats ticksPerSecond (.poll session) (.event event ended)
  | .closed session inUse => (client.close session inUse, none)
  | .closeAnswered session => client.request floats ticksPerSecond (.close session) .closed

/-- The client after a run. -/
def after (as : List ObservationAction) : ReplyClient :=
  as.foldl (fun client a => (client.step floats ticksPerSecond a).1) new

/-- What a reply has of a sample, after a run. -/
def replied (before : List ObservationAction) (a : ObservationAction) : Option ProcessedSample :=
  ((after floats ticksPerSecond before).step floats ticksPerSecond a).2.bind Processed.sample

/-- Nothing of a session is kept, or it is forgotten before the next reply is processed. -/
def Forgotten (client : ReplyClient) (session : UInt64) : Prop :=
  session ∈ client.closedSessions ∨
    (∀ id, client.processor.histories.get? (session, id) = none) ∧
      client.processor.activity.get? session = none

end ReplyClient

/-- Every session is answered as if it were alone, with recent points, and is forgotten once it is
closed. -/
structure Independent (as : List ObservationAction) : Prop where
  alone : ∀ before a, before ++ [a] <+: as → a.isReply = true →
    ReplyClient.replied floats ticksPerSecond before a =
      ReplyClient.replied floats ticksPerSecond (repliesTo a.session before) a
  recent : ∀ before a points observation, before ++ [a] <+: as →
    ReplyClient.replied floats ticksPerSecond before a = some (.history points observation) →
    Recent points
  forgotten : ∀ before a, a ∈ before → before <+: as → a.isClose = true →
    (ReplyClient.after floats ticksPerSecond before).Forgotten a.session

end Runs

/-- No session that keeps something is closed by a `Close` request. -/
def ClosedByClient (as : List ObservationAction) : Prop :=
  ∀ before session, before ++ [.closeAnswered session] <+: as →
    ∀ a ∈ before, a.session = session → ¬ a.Keeps

/-! ## Parts of runs -/

theorem ValidRun.of_prefix {as bs : List ObservationAction} (h : ValidRun bs) (hle : as <+: bs) :
    ValidRun as where
  fresh := h.fresh.sublist ((hle.sublist.filter _).map _)
  used before a hle' := h.used before a (hle'.trans hle)
  bounded before hle' := h.bounded before (hle'.trans hle)
  measured session := (h.measured session).sublist (hle.sublist.filterMap _)

theorem openSessions_concat (as : List ObservationAction) (a : ObservationAction) :
    openSessions (as ++ [a]) = openAfter (openSessions as) a := by
  rw [openSessions, List.foldl_append]
  rfl

theorem samplesOf_concat (session : UInt64) (as : List ObservationAction) (a : ObservationAction) :
    samplesOf session (as ++ [a]) = samplesOf session as ++ (a.sampleOf session).toList := by
  rw [samplesOf, List.filterMap_append]
  cases h : a.sampleOf session <;> simp [samplesOf, h]

theorem sampleOf_self (a : ObservationAction) :
    a.sampleOf a.session = a.value?.bind ObservedValue.historySample := if_pos rfl

theorem sampleOf_of_ne {a : ObservationAction} {session : UInt64} (h : session ≠ a.session) :
    a.sampleOf session = none := if_neg h.symm

theorem sampleOf_of_value?_eq_none {a : ObservationAction} (h : a.value? = none)
    (session : UInt64) : a.sampleOf session = none := by
  rw [ObservationAction.sampleOf, h, Option.bind_none, ite_self]

/-- An open session was started. -/
theorem exists_start_of_open {as : List ObservationAction} {session : UInt64}
    (h : session ∈ openSessions as) : ∃ a ∈ as, a.isStart = true ∧ a.session = session := by
  induction as using List.reverseRecOn with
  | nil => exact absurd h List.not_mem_nil
  | append_singleton as a ih =>
    rw [openSessions_concat] at h
    have hbefore (h : session ∈ openSessions as) :
        ∃ b ∈ as ++ [a], b.isStart = true ∧ b.session = session := by
      obtain ⟨b, hb, hstart⟩ := ih h
      exact ⟨b, List.mem_append_left _ hb, hstart⟩
    cases a with
    | started request s initial =>
      rcases List.mem_append.mp h with h | h
      · exact hbefore h
      · exact ⟨_, List.mem_append_right _ (List.mem_singleton_self _), rfl,
          (List.mem_singleton.mp h).symm⟩
    | polled s event ended => exact hbefore h
    | closed s inUse => exact hbefore (List.mem_filter.mp h).1
    | closeAnswered s => exact hbefore (List.mem_filter.mp h).1

/-- A session that is started was not used before. -/
theorem ValidRun.unused {as : List ObservationAction} {a : ObservationAction}
    (h : ValidRun (as ++ [a])) (ha : a.isStart = true) {b : ObservationAction} (hb : b ∈ as) :
    b.session ≠ a.session := by
  have hfresh := h.fresh
  rw [List.filter_append, List.map_append, List.filter_singleton, ha] at hfresh
  have hapart := (List.nodup_append.mp hfresh).2.2
  have hstarted {c : ObservationAction} (hc : c ∈ as) (hstart : c.isStart = true) :
      c.session ≠ a.session := by
    refine hapart _ ?_ _ (List.mem_singleton_self _)
    exact List.mem_map_of_mem (List.mem_filter.mpr ⟨hc, hstart⟩)
  cases hstart : b.isStart with
  | true => exact hstarted hb hstart
  | false =>
    obtain ⟨before, after, rfl⟩ := List.append_of_mem hb
    have hopen := h.used before b ⟨after ++ [a], by simp⟩ hstart
    obtain ⟨c, hc, hstart, hsession⟩ := exists_start_of_open hopen
    rw [← hsession]
    exact hstarted (List.mem_append_left _ hc) hstart

/-- A session that was closed is not open. -/
theorem ValidRun.closed {as : List ObservationAction} (h : ValidRun as) {a : ObservationAction}
    (ha : a ∈ as) (hclose : a.isClose = true) : a.session ∉ openSessions as := by
  induction as using List.reverseRecOn with
  | nil => exact absurd ha List.not_mem_nil
  | append_singleton as b ih =>
    have hbefore := h.of_prefix (List.prefix_append as [b])
    rw [openSessions_concat]
    intro hopen
    rcases List.mem_append.mp ha with hmem | hmem
    · have hnot := ih hbefore hmem
      cases b with
      | started request s initial =>
        rcases List.mem_append.mp hopen with hopen | hopen
        · exact hnot hopen
        · exact h.unused rfl hmem (List.mem_singleton.mp hopen)
      | polled s event ended => exact hnot hopen
      | closed s inUse => exact hnot (List.mem_filter.mp hopen).1
      | closeAnswered s => exact hnot (List.mem_filter.mp hopen).1
    · obtain rfl := List.mem_singleton.mp hmem
      cases a with
      | started request s initial => exact absurd hclose Bool.false_ne_true
      | polled s event ended => exact absurd hclose Bool.false_ne_true
      | closed s inUse => exact of_decide_eq_true (List.mem_filter.mp hopen).2 rfl
      | closeAnswered s => exact of_decide_eq_true (List.mem_filter.mp hopen).2 rfl

/-! ## What the processor keeps -/

section Runs

variable (floats : Floats) (ticksPerSecond : ℕ)

/-- A run has captured activity of a session. -/
def HasActivity (session : UInt64) (as : List ObservationAction) : Prop :=
  ∃ a ∈ as, a.session = session ∧ ∃ value, a.value? = some value ∧ value.rawActivity ≠ none

/-- Of every live session the processor keeps what its replies make, and of the other ones only what
it is still to forget. -/
structure Tracks (live : UInt64 → Prop) (as : List ObservationAction) (client : ReplyClient) :
    Prop where
  histories : ∀ session, live session → ∀ id,
    client.processor.histories.get? (session, id) = historyOf floats ticksPerSecond
      ((samplesOf session as).filter fun sample => sample.processId = id)
  activity : ∀ session, live session →
    (client.processor.activity.get? session ≠ none ↔ HasActivity session as)
  others : ∀ session, ¬ live session → client.Forgotten session
  closed : ∀ session ∈ client.closedSessions, ¬ live session

theorem tracks_new (live : UInt64 → Prop) : Tracks floats ticksPerSecond live [] .new where
  histories _ _ _ := rfl
  activity _ _ := ⟨fun h => absurd rfl h, fun ⟨_, ha, _⟩ => absurd ha List.not_mem_nil⟩
  others _ _ := .inr ⟨fun _ => rfl, rfl⟩
  closed _ h := absurd h List.not_mem_nil

variable {floats ticksPerSecond} {live : UInt64 → Prop} {as : List ObservationAction}
  {client : ReplyClient}

/-- Forgetting sessions one after another forgets all of them. -/
theorem get?_drainClosed (client : ReplyClient) :
    (∀ key : HistoryKey, client.drainClosed.processor.histories.get? key =
      if key.1 ∈ client.closedSessions then none else client.processor.histories.get? key) ∧
    ∀ session, client.drainClosed.processor.activity.get? session =
      if session ∈ client.closedSessions then none
      else client.processor.activity.get? session := by
  obtain ⟨processor, sessions⟩ := client
  unfold ReplyClient.drainClosed
  dsimp only
  induction sessions generalizing processor with
  | nil => exact ⟨fun key => rfl, fun session => rfl⟩
  | cons s sessions ih =>
    obtain ⟨hhistories, hactivity⟩ := ih (processor.close s)
    rw [List.foldl_cons]
    refine ⟨fun key => ?_, fun session => ?_⟩
    · rw [hhistories, ObservationProcessor.get?_histories_close]
      by_cases hs : key.1 = s
      · rw [if_pos hs, ite_self, if_pos (hs ▸ List.mem_cons_self)]
      · rw [if_neg hs]
        simp only [List.mem_cons, hs, false_or]
    · rw [hactivity, ObservationProcessor.get?_activity_close]
      by_cases hs : session = s
      · rw [if_pos hs, ite_self, if_pos (hs ▸ List.mem_cons_self)]
      · rw [if_neg hs]
        simp only [List.mem_cons, hs, false_or]

/-- Forgetting closed sessions keeps what the live ones have. -/
theorem Tracks.drain (h : Tracks floats ticksPerSecond live as client) :
    Tracks floats ticksPerSecond live as client.drainClosed := by
  obtain ⟨hhistories, hactivity⟩ := get?_drainClosed client
  have hopen {session : UInt64} (hlive : live session) : session ∉ client.closedSessions :=
    fun hmem => h.closed session hmem hlive
  refine ⟨fun session hlive id => ?_, fun session hlive => ?_, fun session hlive => ?_,
    fun session hmem => absurd hmem List.not_mem_nil⟩
  · rw [hhistories, if_neg (hopen hlive)]
    exact h.histories session hlive id
  · rw [hactivity, if_neg (hopen hlive)]
    exact h.activity session hlive
  · refine .inr ⟨fun id => ?_, ?_⟩
    · rw [hhistories]
      split
      · rfl
      · next hmem => exact ((h.others session hlive).resolve_left hmem).1 id
    · rw [hactivity]
      split
      · rfl
      · next hmem => exact ((h.others session hlive).resolve_left hmem).2

/-- The maps hold no more entries than there are live sessions. -/
theorem Tracks.length_le (h : Tracks floats ticksPerSecond live as client)
    (hclosed : client.closedSessions = []) (hmeasured : ∀ session, Measured (samplesOf session as))
    {sessions : List UInt64} (hlive : ∀ session, live session → session ∈ sessions) :
    client.processor.histories.entries.length ≤ sessions.length ∧
      client.processor.activity.entries.length ≤ sessions.length := by
  have hforgotten {session : UInt64} (hnot : ¬ live session) :
      (∀ id, client.processor.histories.get? (session, id) = none) ∧
        client.processor.activity.get? session = none :=
    (h.others session hnot).resolve_left (hclosed ▸ List.not_mem_nil)
  have hkey {key : HistoryKey} (hmem : key ∈ client.processor.histories.entries.map Prod.fst) :
      live key.1 ∧ ∃ sample ∈ samplesOf key.1 as, sample.processId = key.2 := by
    have hsome : client.processor.histories.get? key ≠ none :=
      fun hnone => OrderedMap.get?_eq_none_iff.mp hnone hmem
    by_cases hlive : live key.1
    · refine ⟨hlive, ?_⟩
      have hhistory := h.histories key.1 hlive key.2
      rw [hhistory, Ne, historyOf_eq_none_iff] at hsome
      obtain ⟨sample, hsample⟩ := List.exists_mem_of_ne_nil _ hsome
      obtain ⟨hsample, hid⟩ := List.mem_filter.mp hsample
      exact ⟨sample, hsample, of_decide_eq_true hid⟩
    · exact absurd ((hforgotten hlive).1 key.2) hsome
  constructor
  · have hnodup : ((client.processor.histories.entries.map Prod.fst).map Prod.fst).Nodup := by
      refine client.processor.histories.nodup.map_on fun key hmem key' hmem' heq => ?_
      obtain ⟨-, x, hx, hid⟩ := hkey hmem
      obtain ⟨-, y, hy, hid'⟩ := hkey hmem'
      rw [← heq] at hy
      refine Prod.ext heq ?_
      rw [← hid, ← hid']
      exact (hmeasured key.1).processId_eq hx hy
    have hsub : (client.processor.histories.entries.map Prod.fst).map Prod.fst ⊆ sessions := by
      intro session hmem
      obtain ⟨key, hkeyMem, rfl⟩ := List.mem_map.mp hmem
      exact hlive _ (hkey hkeyMem).1
    have hlength := (hnodup.subperm hsub).length_le
    rwa [List.length_map, List.length_map] at hlength
  · have hsub : client.processor.activity.entries.map Prod.fst ⊆ sessions := by
      intro session hmem
      refine hlive session ?_
      by_contra hnot
      exact OrderedMap.get?_eq_none_iff.mp (hforgotten hnot).2 hmem
    have hlength := (client.processor.activity.nodup.subperm hsub).length_le
    rwa [List.length_map] at hlength

theorem hasActivity_concat {session : UInt64} {as : List ObservationAction}
    {a : ObservationAction} : HasActivity session (as ++ [a]) ↔ HasActivity session as ∨
      a.session = session ∧ ∃ value, a.value? = some value ∧ value.rawActivity ≠ none := by
  unfold HasActivity
  simp only [List.mem_append, List.mem_singleton, or_and_right, exists_or, exists_eq_left]

/-- An action without a value says nothing about what is kept. -/
theorem Tracks.quiet (h : Tracks floats ticksPerSecond live as client) {a : ObservationAction}
    (ha : a.value? = none) : Tracks floats ticksPerSecond live (as ++ [a]) client where
  histories session hlive id := by
    rw [samplesOf_concat, sampleOf_of_value?_eq_none ha, Option.toList_none, List.append_nil]
    exact h.histories session hlive id
  activity session hlive := by
    rw [hasActivity_concat, ha, h.activity session hlive]
    refine ⟨.inl, fun hor => hor.resolve_right ?_⟩
    rintro ⟨-, value, hvalue, -⟩
    exact absurd hvalue.symm (Option.some_ne_none value)
  others := h.others
  closed := h.closed

/-- A reply with a value adds to what its session has. -/
theorem Tracks.takes (h : Tracks floats ticksPerSecond live as client)
    (hclosed : client.closedSessions = []) {a : ObservationAction} {value : ObservedValue}
    (hvalue : a.value? = some value) (hlive : live a.session) {q : ObservationProcessor}
    {processed : Processed} (htakes : ObservationProcessor.Takes floats ticksPerSecond a.session
      value client.processor q processed) :
    Tracks floats ticksPerSecond live (as ++ [a]) { client with processor := q } := by
  have hself : a.sampleOf a.session = value.historySample := by
    rw [sampleOf_self, hvalue]
    rfl
  refine ⟨fun session hsession id => ?_, fun session hsession => ?_, fun session hsession => ?_,
    h.closed⟩
  · have hbefore := h.histories session hsession id
    rw [samplesOf_concat]
    by_cases hs : session = a.session
    · rw [hs] at hbefore ⊢
      rw [hself]
      cases hsample : value.historySample with
      | none =>
        rw [Option.toList_none, List.append_nil, ← hbefore]
        exact htakes.other (a.session, id) (.inr hsample)
      | some sample =>
        obtain ⟨hobserved, hothers⟩ := htakes.observed sample hsample
        rw [Option.toList_some, List.filter_append, List.filter_singleton]
        by_cases hid : sample.processId = id
        · subst hid
          rw [decide_eq_true rfl, cond_true, historyOf_concat, ← hbefore]
          exact hobserved
        · rw [decide_eq_false hid, cond_false, List.append_nil, ← hbefore]
          exact hothers id (Ne.symm hid)
    · rw [sampleOf_of_ne hs, Option.toList_none, List.append_nil, ← hbefore]
      exact htakes.other (session, id) (.inl hs)
  · rw [hasActivity_concat, ← h.activity session hsession]
    by_cases hs : session = a.session ∧ value.rawActivity ≠ none
    · obtain ⟨rfl, hraw⟩ := hs
      exact ⟨fun _ => .inr ⟨rfl, value, hvalue, hraw⟩, fun _ => htakes.captured hraw⟩
    · have hsame : session ≠ a.session ∨ value.rawActivity = none := by
        by_cases heq : session = a.session
        · exact .inr (by_contra fun hraw => hs ⟨heq, hraw⟩)
        · exact .inl heq
      dsimp only
      rw [htakes.activity session hsame]
      refine ⟨.inl, fun hor => hor.resolve_right ?_⟩
      rintro ⟨heq, value', hvalue', hraw⟩
      obtain rfl := Option.some_inj.mp (hvalue.symm.trans hvalue')
      exact hs ⟨heq.symm, hraw⟩
  · have hne : session ≠ a.session := fun heq => hsession (heq ▸ hlive)
    have hforgotten := (h.others session hsession).resolve_left (hclosed ▸ List.not_mem_nil)
    refine .inr ⟨fun id => ?_, ?_⟩
    · exact (htakes.other (session, id) (.inl hne)).trans (hforgotten.1 id)
    · exact (htakes.activity session (.inl hne)).trans hforgotten.2

variable (floats ticksPerSecond) in
/-- What happens when a reply is processed and no session is to be forgotten. -/
theorem step_reply (hclosed : client.closedSessions = []) {a : ObservationAction}
    (hreply : a.isReply = true) :
    (a.value? = none ∧ client.step floats ticksPerSecond a = (client, none)) ∨
    ∃ value asked reply, a.value? = some value ∧
      ObservationProcessor.AnswersWith asked reply a.session value ∧
      client.step floats ticksPerSecond a =
        ({ client with
            processor := (client.processor.process floats ticksPerSecond asked reply).1 },
          (client.processor.process floats ticksPerSecond asked reply).2) := by
  obtain ⟨processor, sessions⟩ := client
  subst hclosed
  cases a with
  | started request session initial =>
    exact .inr ⟨initial, request.polled?, .started session initial, rfl, .inl rfl, rfl⟩
  | polled session event ended =>
    cases event with
    | none => exact .inl ⟨rfl, rfl⟩
    | some value =>
      exact .inr ⟨value, some session, .event (some value) ended, rfl, .inr ⟨rfl, ended, rfl⟩, rfl⟩
  | closed session inUse => exact absurd hreply Bool.false_ne_true
  | closeAnswered session => exact absurd hreply Bool.false_ne_true

/-- A reply to a live session is made of its own samples, and keeps what the others have. -/
theorem Tracks.reply (h : Tracks floats ticksPerSecond live as client)
    (hclosed : client.closedSessions = []) (hmeasured : ∀ session, Measured (samplesOf session as))
    {sessions : List UInt64} (hsessions : ∀ session, live session → session ∈ sessions)
    (hroom : sessions.length ≤ 32) {a : ObservationAction} (hreply : a.isReply = true)
    (hlive : live a.session) :
    Tracks floats ticksPerSecond live (as ++ [a]) (client.step floats ticksPerSecond a).1 ∧
      (client.step floats ticksPerSecond a).1.closedSessions = [] ∧
      (client.step floats ticksPerSecond a).2.bind Processed.sample =
        a.value?.bind (ObservationProcessor.replyOf floats ticksPerSecond fun id =>
          historyOf floats ticksPerSecond
            ((samplesOf a.session as).filter fun sample => sample.processId = id)) := by
  obtain ⟨hhistories, hactivity⟩ := h.length_le hclosed hmeasured hsessions
  have hmax : 32 < maxKept := by decide
  rcases step_reply floats ticksPerSecond hclosed hreply with
    ⟨hnone, hstep⟩ | ⟨value, asked, reply, hvalue, hanswers, hstep⟩
  · rw [hstep, hnone]
    exact ⟨h.quiet hnone, hclosed, rfl⟩
  · obtain ⟨q, processed, hprocess, htakes⟩ :=
      ObservationProcessor.process_takes floats ticksPerSecond (p := client.processor)
        (by omega) (by omega) hanswers
    rw [hstep, hprocess, hvalue]
    refine ⟨h.takes hclosed hvalue hlive htakes, hclosed, ?_⟩
    have hsame : (fun id => client.processor.histories.get? (a.session, id)) = fun id =>
        historyOf floats ticksPerSecond
          ((samplesOf a.session as).filter fun sample => sample.processId = id) :=
      funext (h.histories a.session hlive)
    rw [Option.bind_some, Option.bind_some, htakes.replied, hsame]

/-- Before a session is started, nothing of it is kept. -/
theorem Tracks.start (h : Tracks floats ticksPerSecond live as client)
    (hclosed : client.closedSessions = []) {session : UInt64}
    (hunused : ∀ a ∈ as, a.session ≠ session) (hnot : ¬ live session) :
    Tracks floats ticksPerSecond (fun s => live s ∨ s = session) as client := by
  have hforgotten := (h.others session hnot).resolve_left (hclosed ▸ List.not_mem_nil)
  have hsamples : samplesOf session as = [] :=
    List.filterMap_eq_nil_iff.mpr fun a ha => sampleOf_of_ne (hunused a ha).symm
  refine ⟨fun s hs id => ?_, fun s hs => ?_, fun s hs => h.others s fun hlive => hs (.inl hlive),
    fun s hs => absurd hs (hclosed ▸ List.not_mem_nil)⟩
  · rcases hs with hs | rfl
    · exact h.histories s hs id
    · rw [hsamples]
      exact hforgotten.1 id
  · rcases hs with hs | rfl
    · exact h.activity s hs
    · refine ⟨fun hsome => absurd hforgotten.2 hsome, ?_⟩
      rintro ⟨a, ha, hsession, -⟩
      exact absurd hsession (hunused a ha)

/-- A session that keeps nothing more is closed. -/
theorem Tracks.close (h : Tracks floats ticksPerSecond live as client) {session : UInt64}
    (hforgotten : client.Forgotten session) :
    Tracks floats ticksPerSecond (fun s => live s ∧ s ≠ session) as client := by
  refine ⟨fun s hs id => h.histories s hs.1 id, fun s hs => h.activity s hs.1, fun s hs => ?_,
    fun s hs hlive => h.closed s hs hlive.1⟩
  by_cases heq : s = session
  · exact heq ▸ hforgotten
  · exact h.others s fun hlive => hs ⟨hlive, heq⟩

theorem Tracks.congr {live' : UInt64 → Prop} (h : Tracks floats ticksPerSecond live as client)
    (hlive : ∀ session, live' session ↔ live session) :
    Tracks floats ticksPerSecond live' as client where
  histories session hsession := h.histories session ((hlive session).mp hsession)
  activity session hsession := h.activity session ((hlive session).mp hsession)
  others session hsession := h.others session fun hmem => hsession ((hlive session).mpr hmem)
  closed session hmem hsession := h.closed session hmem ((hlive session).mp hsession)

/-- A session that is closed by the client is forgotten at once or later. -/
theorem Tracks.closeByClient (h : Tracks floats ticksPerSecond live as client) (session : UInt64)
    (inUse : Bool) : Tracks floats ticksPerSecond (fun s => live s ∧ s ≠ session) as
      (client.close session inUse) := by
  have hpending : Tracks floats ticksPerSecond (fun s => live s ∧ s ≠ session) as
      { client with closedSessions := client.closedSessions ++ [session] } := by
    refine ⟨fun s hs id => h.histories s hs.1 id, fun s hs => h.activity s hs.1, fun s hs => ?_,
      fun s hs hlive => ?_⟩
    · by_cases heq : s = session
      · exact .inl (List.mem_append_right _ (List.mem_singleton.mpr heq))
      · exact (h.others s fun hlive => hs ⟨hlive, heq⟩).imp (List.mem_append_left _) id
    · rcases List.mem_append.mp hs with hs | hs
      · exact h.closed s hs hlive.1
      · exact hlive.2 (List.mem_singleton.mp hs)
  unfold ReplyClient.close
  dsimp only
  split
  · exact hpending
  · exact hpending.drain

/-- A live session without samples and activity keeps nothing. -/
theorem Tracks.forgotten (h : Tracks floats ticksPerSecond live as client) {session : UInt64}
    (hnone : ∀ a ∈ as, a.session = session → ¬ a.Keeps) (hlive : live session) :
    client.Forgotten session := by
  have hsamples : samplesOf session as = [] := by
    refine List.filterMap_eq_nil_iff.mpr fun a ha => ?_
    by_contra hsample
    by_cases hs : session = a.session
    · refine hnone a ha hs.symm ?_
      rw [hs, sampleOf_self] at hsample
      cases hvalue : a.value? with
      | none => exact absurd (by rw [hvalue]; rfl) hsample
      | some value =>
        rw [hvalue] at hsample
        exact ⟨value, hvalue, .inl hsample⟩
    · exact hsample (sampleOf_of_ne hs)
  refine .inr ⟨fun id => ?_, ?_⟩
  · rw [h.histories session hlive id, hsamples]
    rfl
  · by_contra hsome
    obtain ⟨a, ha, hs, value, hvalue, hraw⟩ := (h.activity session hlive).mp hsome
    exact hnone a ha hs ⟨value, hvalue, .inr hraw⟩

/-- What an open session has kept is not forgotten. -/
theorem Tracks.not_forgotten (h : Tracks floats ticksPerSecond live as client)
    (hclosed : client.closedSessions = []) {a : ObservationAction} (ha : a ∈ as)
    (hlive : live a.session) (hkeeps : a.Keeps) : ¬ client.Forgotten a.session := by
  rintro (hmem | ⟨hhistories, hactivity⟩)
  · exact absurd hmem (hclosed ▸ List.not_mem_nil)
  obtain ⟨value, hvalue, hsample | hraw⟩ := hkeeps
  · obtain ⟨sample, hsample⟩ := Option.ne_none_iff_exists'.mp hsample
    have hmem : sample ∈ samplesOf a.session as := by
      refine List.mem_filterMap.mpr ⟨a, ha, ?_⟩
      rw [sampleOf_self, hvalue]
      exact hsample
    have hnone := hhistories sample.processId
    rw [h.histories a.session hlive, historyOf_eq_none_iff] at hnone
    have hkept : sample ∈ (samplesOf a.session as).filter fun x =>
        x.processId = sample.processId := List.mem_filter.mpr ⟨hmem, decide_eq_true rfl⟩
    rw [hnone] at hkept
    exact absurd hkept List.not_mem_nil
  · exact (h.activity a.session hlive).mpr ⟨a, ha, rfl, value, hvalue, hraw⟩ hactivity

variable (floats ticksPerSecond) in
theorem step_eq_drainClosed (client : ReplyClient) {a : ObservationAction} (ha : a.isReply = true) :
    client.step floats ticksPerSecond a = client.drainClosed.step floats ticksPerSecond a := by
  cases a with
  | started request session initial => rfl
  | polled session event ended => rfl
  | closed session inUse => exact absurd ha Bool.false_ne_true
  | closeAnswered session => exact absurd ha Bool.false_ne_true

/-- Before a reply the processor knows what the open sessions and that of the reply have. -/
theorem Tracks.beforeReply (h : Tracks floats ticksPerSecond (· ∈ openSessions as) as client)
    {a : ObservationAction} (hvalid : ValidRun (as ++ [a])) (ha : a.isReply = true) :
    Tracks floats ticksPerSecond (· ∈ openSessions (as ++ [a])) as client.drainClosed ∧
      a.session ∈ openSessions (as ++ [a]) := by
  rw [openSessions_concat]
  cases hstart : a.isStart with
  | false =>
    have hopen := hvalid.used as a List.prefix_rfl hstart
    cases a with
    | started request session initial => exact absurd hstart Bool.false_ne_true.symm
    | polled session event ended => exact ⟨h.drain, hopen⟩
    | closed session inUse => exact absurd ha Bool.false_ne_true
    | closeAnswered session => exact absurd ha Bool.false_ne_true
  | true =>
    have hunused : ∀ b ∈ as, b.session ≠ a.session := fun b hb => hvalid.unused hstart hb
    have hnot : a.session ∉ openSessions as := by
      intro hopen
      obtain ⟨b, hb, -, hsession⟩ := exists_start_of_open hopen
      exact hunused b hb hsession
    have hstarted := h.drain.start rfl hunused hnot
    cases a with
    | started request session initial =>
      refine ⟨hstarted.congr fun s => ?_, List.mem_append_right _ (List.mem_singleton_self _)⟩
      exact List.mem_append.trans (or_congr_right List.mem_singleton)
    | polled session event ended => exact absurd hstart Bool.false_ne_true
    | closed session inUse => exact absurd ha Bool.false_ne_true
    | closeAnswered session => exact absurd ha Bool.false_ne_true

/-- Every step keeps track of what is kept, if no session that keeps something is closed by a
request. -/
theorem Tracks.step (h : Tracks floats ticksPerSecond (· ∈ openSessions as) as client)
    {a : ObservationAction} (hvalid : ValidRun (as ++ [a])) (hclosed : ClosedByClient (as ++ [a])) :
    Tracks floats ticksPerSecond (· ∈ openSessions (as ++ [a])) (as ++ [a])
      (client.step floats ticksPerSecond a).1 := by
  have hreply (ha : a.isReply = true) : Tracks floats ticksPerSecond
      (· ∈ openSessions (as ++ [a])) (as ++ [a]) (client.step floats ticksPerSecond a).1 := by
    obtain ⟨hbefore, hlive⟩ := h.beforeReply hvalid ha
    have hmeasured := (hvalid.of_prefix (List.prefix_append as [a])).measured
    rw [step_eq_drainClosed floats ticksPerSecond client ha]
    exact (hbefore.reply rfl hmeasured (fun _ => id) (hvalid.bounded _ List.prefix_rfl) ha hlive).1
  have hfilter (session : UInt64) : ∀ s, s ∈ (openSessions as).filter (fun s => s ≠ session) ↔
      s ∈ openSessions as ∧ s ≠ session := by
    intro s
    rw [List.mem_filter, decide_eq_true_eq]
  cases a with
  | started request session initial => exact hreply rfl
  | polled session event ended => exact hreply rfl
  | closed session inUse =>
    rw [openSessions_concat]
    exact ((h.closeByClient session inUse).quiet rfl).congr (hfilter session)
  | closeAnswered session =>
    have hopen : session ∈ openSessions as := hvalid.used as _ List.prefix_rfl rfl
    have hforgotten := h.drain.forgotten (hclosed as session List.prefix_rfl) hopen
    rw [openSessions_concat]
    exact ((h.drain.close hforgotten).quiet rfl).congr (hfilter session)

variable (floats ticksPerSecond) in
theorem after_concat (as : List ObservationAction) (a : ObservationAction) :
    ReplyClient.after floats ticksPerSecond (as ++ [a]) =
      ((ReplyClient.after floats ticksPerSecond as).step floats ticksPerSecond a).1 := by
  rw [ReplyClient.after, List.foldl_append]
  rfl

theorem ClosedByClient.of_prefix {as bs : List ObservationAction} (h : ClosedByClient bs)
    (hle : as <+: bs) : ClosedByClient as := fun before session hle' =>
  h before session (hle'.trans hle)

variable (floats ticksPerSecond) in
/-- The run lemma for sessions that are closed by the client. -/
theorem tracks_after {as : List ObservationAction} (hvalid : ValidRun as)
    (hclosed : ClosedByClient as) : Tracks floats ticksPerSecond (· ∈ openSessions as) as
      (ReplyClient.after floats ticksPerSecond as) := by
  induction as using List.reverseRecOn with
  | nil => exact tracks_new floats ticksPerSecond _
  | append_singleton as a ih =>
    have hle := List.prefix_append as [a]
    rw [after_concat]
    exact (ih (hvalid.of_prefix hle) (hclosed.of_prefix hle)).step hvalid hclosed

variable (floats ticksPerSecond) in
/-- The run lemma for a session that is alone. -/
theorem tracks_alone {session : UInt64} {as : List ObservationAction}
    (has : ∀ a ∈ as, a.isReply = true ∧ a.session = session)
    (hmeasured : ∀ s, Measured (samplesOf s as)) :
    Tracks floats ticksPerSecond (· = session) as (ReplyClient.after floats ticksPerSecond as) ∧
      (ReplyClient.after floats ticksPerSecond as).closedSessions = [] := by
  induction as using List.reverseRecOn with
  | nil => exact ⟨tracks_new floats ticksPerSecond _, rfl⟩
  | append_singleton as a ih =>
    have hmeasured' (s : UInt64) : Measured (samplesOf s as) :=
      (hmeasured s).sublist ((List.sublist_append_left as [a]).filterMap _)
    obtain ⟨htracks, hclosed⟩ := ih (fun b hb => has b (List.mem_append_left _ hb)) hmeasured'
    obtain ⟨hreply, hsession⟩ := has a (List.mem_append_right _ (List.mem_singleton_self a))
    have hstep := htracks.reply hclosed hmeasured'
      (fun s hs => List.mem_singleton.mpr hs : ∀ s, s = session → s ∈ [session])
      (Nat.le_add_left 1 31) hreply hsession
    rw [after_concat]
    exact ⟨hstep.1, hstep.2.1⟩

theorem samplesOf_repliesTo (session : UInt64) (as : List ObservationAction) :
    samplesOf session (repliesTo session as) = samplesOf session as := by
  unfold samplesOf repliesTo
  rw [List.filterMap_filter]
  refine List.filterMap_congr fun a _ => ?_
  split
  · rfl
  · next hnot =>
    by_cases hs : session = a.session
    · have hreply : a.isReply = false := by
        simpa [hs] using hnot
      cases a with
      | started request s initial => exact absurd hreply Bool.false_ne_true.symm
      | polled s event ended => exact absurd hreply Bool.false_ne_true.symm
      | closed s inUse => exact (sampleOf_of_value?_eq_none rfl session).symm
      | closeAnswered s => exact (sampleOf_of_value?_eq_none rfl session).symm
    · exact (sampleOf_of_ne hs).symm

/-- What is replied is made of the samples of the session. -/
theorem replied_eq {as : List ObservationAction} {a : ObservationAction}
    (hvalid : ValidRun (as ++ [a])) (hclosed : ClosedByClient as) (ha : a.isReply = true) :
    ReplyClient.replied floats ticksPerSecond as a =
      a.value?.bind (ObservationProcessor.replyOf floats ticksPerSecond fun id =>
        historyOf floats ticksPerSecond
          ((samplesOf a.session as).filter fun sample => sample.processId = id)) := by
  have hbefore := hvalid.of_prefix (List.prefix_append as [a])
  have htracks := tracks_after floats ticksPerSecond hbefore hclosed
  obtain ⟨hlive, hopen⟩ := htracks.beforeReply hvalid ha
  unfold ReplyClient.replied
  rw [step_eq_drainClosed floats ticksPerSecond _ ha]
  exact (hlive.reply rfl hbefore.measured (fun _ => id) (hvalid.bounded _ List.prefix_rfl) ha
    hopen).2.2

/-- A session that is alone is replied the same. -/
theorem replied_alone {as : List ObservationAction} {a : ObservationAction}
    (hmeasured : ∀ s, Measured (samplesOf s as)) (ha : a.isReply = true) :
    ReplyClient.replied floats ticksPerSecond (repliesTo a.session as) a =
      a.value?.bind (ObservationProcessor.replyOf floats ticksPerSecond fun id =>
        historyOf floats ticksPerSecond
          ((samplesOf a.session as).filter fun sample => sample.processId = id)) := by
  have hreplies : ∀ b ∈ repliesTo a.session as, b.isReply = true ∧ b.session = a.session := by
    intro b hb
    have hb := (List.mem_filter.mp hb).2
    rw [Bool.and_eq_true, decide_eq_true_eq] at hb
    exact hb
  have hmeasured' (s : UInt64) : Measured (samplesOf s (repliesTo a.session as)) :=
    (hmeasured s).sublist (List.filter_sublist.filterMap _)
  obtain ⟨htracks, hclosed⟩ := tracks_alone floats ticksPerSecond hreplies hmeasured'
  have hsessions : ∀ s, s = a.session → s ∈ [a.session] := fun s hs => List.mem_singleton.mpr hs
  rw [← samplesOf_repliesTo]
  exact (htracks.reply hclosed hmeasured' hsessions (Nat.le_add_left 1 31) ha rfl).2.2

/-- The points in a reply are those of a history. -/
theorem points_of_replyOf {history : ProcessId → Option ProcessHistory} {value : ObservedValue}
    {points : List HistoryPoint} {observation : ProcessObservation}
    (h : ObservationProcessor.replyOf floats ticksPerSecond history value =
      some (.history points observation)) :
    ∃ sample, value.historySample = some sample ∧ points =
      (ObservationProcessor.observe floats ticksPerSecond (history sample.processId)
        sample).points := by
  unfold ObservationProcessor.replyOf at h
  cases hsample : value.historySample with
  | some sample =>
    rw [hsample] at h
    obtain ⟨hpoints, -⟩ := ProcessedSample.history.inj (Option.some_inj.mp h)
    exact ⟨sample, rfl, hpoints.symm⟩
  | none =>
    rw [hsample] at h
    obtain ⟨sample, -, hreplied⟩ := Option.map_eq_some_iff.mp h
    split at hreplied
    · exact ProcessedSample.noConfusion hreplied
    · exact ProcessedSample.noConfusion hreplied

/-- The points in a reply are recent. -/
theorem recent_of_replied {as : List ObservationAction} {a : ObservationAction}
    (hvalid : ValidRun (as ++ [a])) (hclosed : ClosedByClient as) {points : List HistoryPoint}
    {observation : ProcessObservation} (h : ReplyClient.replied floats ticksPerSecond as a =
      some (.history points observation)) : Recent points := by
  cases ha : a.isReply with
  | false =>
    cases a with
    | started request session initial => exact absurd ha Bool.false_ne_true.symm
    | polled session event ended => exact absurd ha Bool.false_ne_true.symm
    | closed session inUse => exact absurd h.symm (Option.some_ne_none _)
    | closeAnswered session => exact absurd h.symm (Option.some_ne_none _)
  | true =>
    rw [replied_eq hvalid hclosed ha] at h
    obtain ⟨value, hvalue, hreplied⟩ := Option.bind_eq_some_iff.mp h
    obtain ⟨sample, hsample, rfl⟩ := points_of_replyOf hreplied
    have hsamples : samplesOf a.session (as ++ [a]) = samplesOf a.session as ++ [sample] := by
      rw [samplesOf_concat, sampleOf_self, hvalue, Option.bind_some, hsample]
      rfl
    have hmeasured := hvalid.measured a.session
    rw [hsamples] at hmeasured
    have hkept : Measured (((samplesOf a.session as).filter fun x =>
        x.processId = sample.processId) ++ [sample]) :=
      hmeasured.sublist (List.filter_sublist.append (List.Sublist.refl _))
    exact (recent_historyOf floats ticksPerSecond hkept (historyOf_concat ..)).2.2.2

variable (floats ticksPerSecond) in
/-- In every run the sessions are independent exactly if no session that keeps something is closed by
a request. -/
theorem independent_iff_closedByClient {as : List ObservationAction} (hvalid : ValidRun as) :
    Independent floats ticksPerSecond as ↔ ClosedByClient as := by
  constructor
  · intro h
    induction as using List.reverseRecOn with
    | nil =>
      intro before session hle
      exact absurd (List.prefix_nil.mp hle) (List.append_ne_nil_of_right_ne_nil _ (by simp))
    | append_singleton as a ih =>
      have hle := List.prefix_append as [a]
      have hbefore := hvalid.of_prefix hle
      have hindependent : Independent floats ticksPerSecond as :=
        ⟨fun before b hle' => h.alone before b (hle'.trans hle),
          fun before b points observation hle' =>
            h.recent before b points observation (hle'.trans hle),
          fun before b hb hle' => h.forgotten before b hb (hle'.trans hle)⟩
      have hclosed := ih hbefore hindependent
      intro before session hle' b hb hsession hkeeps
      rcases List.prefix_concat_iff.mp hle' with heq | hle'
      · obtain ⟨rfl, rfl⟩ := List.append_singleton_inj.mp heq
        subst hsession
        -- what the session has kept is still there when its `Close` request has been answered
        have htracks := (tracks_after floats ticksPerSecond hbefore hclosed).drain
        have hopen : b.session ∈ openSessions before := hvalid.used before
          (.closeAnswered b.session) List.prefix_rfl rfl
        have hforgotten := h.forgotten (before ++ [.closeAnswered b.session]) _
          (List.mem_append_right _ (List.mem_singleton_self _)) List.prefix_rfl rfl
        rw [after_concat] at hforgotten
        exact htracks.not_forgotten rfl hb hopen hkeeps hforgotten
      · exact hclosed before session hle' b hb hsession hkeeps
  · intro hclosed
    refine ⟨fun before a hle ha => ?_, fun before a points observation hle hreplied => ?_,
      fun before a ha hle hclose => ?_⟩
    · have hbefore := (List.prefix_append before [a]).trans hle
      have hmeasured := (hvalid.of_prefix hbefore).measured
      exact (replied_eq (hvalid.of_prefix hle) (hclosed.of_prefix hbefore) ha).trans
        (replied_alone hmeasured ha).symm
    · have hbefore := (List.prefix_append before [a]).trans hle
      exact recent_of_replied (hvalid.of_prefix hle) (hclosed.of_prefix hbefore) hreplied
    · have htracks := tracks_after floats ticksPerSecond (hvalid.of_prefix hle)
        (hclosed.of_prefix hle)
      exact htracks.others a.session ((hvalid.of_prefix hle).closed ha hclose)

end Runs

/-! ## Two runs -/

/-- A run is valid if its parts are and all samples are of one process, one after another. -/
theorem validRun_of_take {as : List ObservationAction}
    (hfresh : ((as.filter ObservationAction.isStart).map ObservationAction.session).Nodup)
    (hused : ∀ k < as.length, ∀ a ∈ as[k]?, a.isStart = true ∨
      a.session ∈ openSessions (as.take k))
    (hbounded : ∀ k < as.length + 1, (openSessions (as.take k)).length ≤ 32)
    (hmeasured : Measured (as.filterMap fun a => a.value?.bind ObservedValue.historySample)) :
    ValidRun as := by
  refine ⟨hfresh, fun before a hle hstart => ?_, fun before hle => ?_, fun session => ?_⟩
  · obtain ⟨rest, rfl⟩ := hle
    rw [List.append_assoc] at hused
    have hk := hused before.length (by simp) a (by simp)
    rw [List.take_left] at hk
    exact hk.resolve_left (hstart ▸ Bool.false_ne_true)
  · rw [List.prefix_iff_eq_take.mp hle]
    exact hbounded before.length (Nat.lt_succ_of_le hle.length_le)
  · have hfilter : samplesOf session as = (as.filter fun a => a.session = session).filterMap
        fun a => a.value?.bind ObservedValue.historySample := by
      rw [List.filterMap_filter]
      refine List.filterMap_congr fun a _ => ?_
      simp only [ObservationAction.sampleOf, decide_eq_true_eq]
    rw [hfilter]
    exact hmeasured.sublist (List.filter_sublist.filterMap _)

/-- A value with a sample that was measured at a time in milliseconds. -/
def valueAt (time : UInt64) : ObservedValue where
  summary := true
  threadsOnly := false
  snapshot := none
  rawActivity := none
  processSample := some ⟨time, ⟨42, 10⟩, 1024, 2048, 0, 0, none, none, none, [], 0, 0, 20, 100,
    time * 1000000⟩

/-- A session that is polled and closed by the client. -/
def polledAndClosed : List ObservationAction :=
  [.started (.observeProcess ⟨42, 10⟩) 1 (valueAt 1000), .polled 1 (some (valueAt 2000)) false,
    .closed 1 false]

theorem independent_polledAndClosed : Independent .native 100 polledAndClosed := by
  have hvalid : ValidRun polledAndClosed :=
    validRun_of_take (by decide +kernel) (by decide +kernel) (by decide +kernel)
      (by unfold Measured; decide +kernel)
  refine (independent_iff_closedByClient .native 100 hvalid).mpr fun before session hle => ?_
  have hmem : ObservationAction.closeAnswered session ∈ polledAndClosed :=
    hle.subset (List.mem_append_right _ (List.mem_singleton_self _))
  simp [polledAndClosed] at hmem

/-- A session of a viewer stays open while others are started and closed by requests. -/
def closedByRequests : List ObservationAction :=
  [.started (.observeProcess ⟨42, 10⟩) 0 (valueAt 1000)] ++
    (List.range 63).flatMap (fun k =>
      [.started (.observeProcess ⟨42, 10⟩) (.ofNat (k + 1)) (valueAt 1000),
        .closeAnswered (.ofNat (k + 1))]) ++
    [.started (.observeProcess ⟨42, 10⟩) 64 (valueAt 1000)]

/-- The times of the points in a reply. -/
def timesOf : Option ProcessedSample → List UInt64
  | some (.history points _) => points.map HistoryPoint.timestamp
  | _ => []

/-- The viewer loses the first point when the map is full. -/
theorem not_independent_closedByRequests :
    ValidRun (closedByRequests ++ [.polled 0 (some (valueAt 2000)) false]) ∧
      timesOf (ReplyClient.replied .native 100 closedByRequests
        (.polled 0 (some (valueAt 2000)) false)) = [2000] ∧
      timesOf (ReplyClient.replied .native 100 (repliesTo 0 closedByRequests)
        (.polled 0 (some (valueAt 2000)) false)) = [1000, 2000] ∧
      ¬ Independent .native 100 (closedByRequests ++ [.polled 0 (some (valueAt 2000)) false]) := by
  have htimes : timesOf (ReplyClient.replied .native 100 closedByRequests
      (.polled 0 (some (valueAt 2000)) false)) = [2000] := by decide +kernel
  have halone : timesOf (ReplyClient.replied .native 100 (repliesTo 0 closedByRequests)
      (.polled 0 (some (valueAt 2000)) false)) = [1000, 2000] := by decide +kernel
  refine ⟨validRun_of_take (by decide +kernel) (by decide +kernel) (by decide +kernel)
    (by unfold Measured; decide +kernel), htimes, halone, fun h => ?_⟩
  have hsame := h.alone closedByRequests (.polled 0 (some (valueAt 2000)) false) List.prefix_rfl rfl
  have heq : ([2000] : List UInt64) = [1000, 2000] :=
    htimes.symm.trans ((congrArg timesOf hsame).trans halone)
  exact absurd heq (by decide)

end Procinsh
