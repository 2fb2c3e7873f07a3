import Procinsh.Foundation.Lists
import Procinsh.Sampling.Epochs

/-!
# The samples of a run

What the observers of a sampler read: in every state of a run the contexts that are listed have different
numbers, the one of each retained sample is among them with the mappings that the sample was accepted
under, and a number that is listed again later stands for the same mappings.
-/

namespace Procinsh.Sampling

open Ipc

namespace Sampler

/-! ## Listed contexts -/

/-- What is listed under a number is the context of a thread, and no context is left out. -/
theorem foldl_addContext (es : List (ℤ × Thread)) (m : SortedMap ℕ MappingSnapshot) :
    (∀ k c, (es.foldl addContext m).get? k = some c →
      m.get? k = some c ∨ (c.epoch.toNat = k ∧ ∃ e ∈ es, e.2.latest.context = some c)) ∧
    (∀ k, (m.get? k).isSome → ((es.foldl addContext m).get? k).isSome) ∧
    ∀ e ∈ es, ∀ c ∈ e.2.latest.context, ((es.foldl addContext m).get? c.epoch.toNat).isSome := by
  induction es generalizing m with
  | nil => exact ⟨fun _ _ h => Or.inl h, fun _ h => h, fun e he => absurd he List.not_mem_nil⟩
  | cons a es ih =>
    obtain ⟨honly, hkeeps, hall⟩ := ih (addContext m a)
    have hstep : (∀ k c, (addContext m a).get? k = some c →
        m.get? k = some c ∨ (c.epoch.toNat = k ∧ a.2.latest.context = some c)) ∧
        (∀ k, (m.get? k).isSome → ((addContext m a).get? k).isSome) ∧
        ∀ c ∈ a.2.latest.context, ((addContext m a).get? c.epoch.toNat).isSome := by
      unfold addContext
      split
      · next context hcontext =>
        split
        · next hsome =>
          refine ⟨fun _ _ h => Or.inl h, fun _ h => h, fun c hc => ?_⟩
          obtain rfl := Option.some.inj (hcontext.symm.trans hc)
          exact hsome
        · refine ⟨fun k c h => ?_, fun k h => ?_, fun c hc => ?_⟩
          · rw [SortedMap.get?_insert] at h
            split at h
            · next hk => exact Or.inr ⟨by rw [← Option.some.inj h, hk], by rw [hcontext, h]⟩
            · exact Or.inl h
          · rw [SortedMap.get?_insert]
            split
            · rfl
            · exact h
          · obtain rfl := Option.some.inj (hcontext.symm.trans hc)
            rw [SortedMap.get?_insert_self]
            rfl
      · next hnone =>
        exact ⟨fun _ _ h => Or.inl h, fun _ h => h, fun c hc => by rw [hnone] at hc; cases hc⟩
    obtain ⟨hstepOnly, hstepKeeps, hstepAll⟩ := hstep
    refine ⟨fun k c h => ?_, fun k h => hkeeps k (hstepKeeps k h), fun e he c hc => ?_⟩
    · rcases honly k c h with h | ⟨hk, e, he, hc⟩
      · exact (hstepOnly k c h).imp_right fun ⟨hk, hc⟩ => ⟨hk, a, List.mem_cons_self, hc⟩
      · exact Or.inr ⟨hk, e, List.mem_cons_of_mem a he, hc⟩
    · rcases List.mem_cons.mp he with rfl | he
      · exact hkeeps _ (hstepAll c hc)
      · exact hall e he c hc

variable {contexts : List MappingSnapshot} {s : Sampler}

/-- Mappings with one number are the same. -/
theorem Valid.eq_of_epoch_eq (hs : s.Valid contexts) {c d : MappingSnapshot} (hc : c ∈ contexts)
    (hd : d ∈ contexts) (h : c.epoch = d.epoch) : c = d := by
  have hnodup : (contexts.map fun c => c.epoch.toNat).Nodup :=
    (List.pairwise_map.mpr hs.numbered).imp Nat.ne_of_lt
  exact List.inj_on_of_nodup_map hnodup hc hd (congrArg UInt64.toNat h)

/-- What is listed under its number is the context of a thread. -/
theorem exists_of_mem_listed {e : ℕ × MappingSnapshot}
    (h : e ∈ (s.threads.entries.foldl addContext .empty).entries) :
    e.2.epoch.toNat = e.1 ∧ ∃ t ∈ s.threads.entries, t.2.latest.context = some e.2 := by
  rcases (foldl_addContext s.threads.entries .empty).1 e.1 e.2 (SortedMap.get?_eq_some_iff.mpr h)
    with hnone | hsome
  · cases hnone
  · exact hsome

omit s in
theorem Valid.thread_of_mem {s : Sampler} (hs : s.Valid contexts) {e : ℤ × Thread}
    (he : e ∈ s.threads.entries) : e.2.Valid contexts :=
  hs.threads e.1 e.2 (SortedMap.get?_eq_some_iff.mpr he)

/-- What is listed has been current. -/
theorem mem_of_mem_mappingSnapshots (hs : s.Valid contexts) {c : MappingSnapshot}
    (h : c ∈ s.mappingSnapshots) : c ∈ contexts := by
  obtain ⟨e, he, rfl⟩ := List.mem_map.mp h
  obtain ⟨-, t, ht, hcontext⟩ := exists_of_mem_listed he
  exact (hs.thread_of_mem ht).known e.2 hcontext

/-- No number is listed twice. -/
theorem nodup_mappingSnapshots (s : Sampler) : (s.mappingSnapshots.map fun c => c.epoch).Nodup := by
  have hkeys := SortedMap.nodup_keys (s.threads.entries.foldl addContext .empty)
  have hmap : (s.mappingSnapshots.map fun c => c.epoch).map UInt64.toNat =
      (s.threads.entries.foldl addContext .empty).keys := by
    rw [mappingSnapshots, List.map_map, List.map_map]
    exact List.map_congr_left fun e he => (exists_of_mem_listed he).1
  rw [← hmap] at hkeys
  exact hkeys.of_map _

/-- The context of a retained sample is listed. -/
theorem mem_mappingSnapshots (hs : s.Valid contexts) {tid : ℤ} {t : Thread}
    (ht : s.threads.get? tid = some t) {c : MappingSnapshot} (hc : t.latest.context = some c) :
    c ∈ s.mappingSnapshots := by
  have hmem := SortedMap.get?_eq_some_iff.mp ht
  obtain ⟨d, hd⟩ := Option.isSome_iff_exists.mp
    ((foldl_addContext s.threads.entries .empty).2.2 (tid, t) hmem c hc)
  have hlisted := SortedMap.get?_eq_some_iff.mp hd
  obtain ⟨hepoch, u, hu, hcontext⟩ := exists_of_mem_listed hlisted
  have heq : d = c := hs.eq_of_epoch_eq ((hs.thread_of_mem hu).known d hcontext)
    ((hs.threads tid t ht).known c hc) (UInt64.toNat_inj.mp hepoch)
  exact List.mem_map.mpr ⟨_, hlisted, heq⟩

/-- The context of a retained sample is listed once. -/
theorem filter_mappingSnapshots (hs : s.Valid contexts) {tid : ℤ} {t : Thread}
    (ht : s.threads.get? tid = some t) {c : MappingSnapshot} (hc : t.latest.context = some c) :
    s.mappingSnapshots.filter (fun d => d.epoch = c.epoch) = [c] :=
  filter_key_eq_singleton (nodup_mappingSnapshots s) (mem_mappingSnapshots hs ht hc)

/-! ## Runs -/

section Runs

variable [Target] {id : ProcessId} {header : Option (List.Vector UInt8 20)} {calls later : List Call}
  {t : Sampler}

/-- In every state of a run the accepted samples of a thread have got newer, what is retained is the last of
them, and its number is listed once, with the mappings that it was accepted under.  A number that is
listed at two moments stands for the same mappings. -/
theorem run_retains (hs : (new id header).run calls = some s) (ht : s.run later = some t) :
    (∀ tid thread, s.threads.get? tid = some thread →
      (thread.accepted.Pairwise fun a b => a.1.timeNs < b.1.timeNs) ∧
      Retains thread thread.accepted.getLast? ∧
      ∀ sample maps, thread.accepted.getLast? = some (sample, maps) → ∃ epoch,
        thread.latest.mapEpoch = some epoch ∧
        s.mappingSnapshots.filter (fun c => c.epoch = epoch) = [⟨epoch, maps⟩]) ∧
    ∀ c ∈ s.mappingSnapshots, ∀ d ∈ t.mappingSnapshots, c.epoch = d.epoch → c.maps = d.maps := by
  obtain ⟨more, hvalid⟩ := run_valid hs (new_valid id header)
  obtain ⟨more', hlater⟩ := run_valid ht hvalid
  refine ⟨fun tid thread hthread => ?_, fun c hc d hd hepoch => ?_⟩
  · obtain ⟨hascending, hretains, -⟩ := hvalid.threads tid thread hthread
    refine ⟨hascending, hretains, fun sample maps hlast => ?_⟩
    rw [hlast] at hretains
    obtain ⟨-, -, -, -, epoch, hepoch, hcontext⟩ := hretains
    exact ⟨epoch, hepoch, filter_mappingSnapshots hvalid hthread hcontext⟩
  · have hc' := List.mem_append_left more' (mem_of_mem_mappingSnapshots hvalid hc)
    have hd' := mem_of_mem_mappingSnapshots hlater hd
    rw [hlater.eq_of_epoch_eq hc' hd' hepoch]

end Runs

/-! ## A run -/

/-- A mapping that can be read. -/
def testMap (pathname : String) : MemoryMap :=
  ⟨4096, 8192, true, false, false, true, 0, ⟨0, 0⟩, 0, some pathname⟩

/-- A thread whose events cannot be opened. -/
def testFound (tid : Int32) : Found :=
  ⟨tid, some 1, .error "not permitted", .error "not permitted", ⟨fun _ => 0, 0⟩, ⟨fun _ => 0, 0⟩,
    ⟨0, 0, fun _ _ => .error "not readable"⟩⟩

/-- A round of ptrace snapshots, in which only some threads can be captured. -/
def testRound (time : UInt64) (captured : List ℤ) : PtraceRound :=
  ⟨fun tid => if tid ∈ captured then .ok ⟨time, ⟨List.replicate 24 4096, false, none⟩, [1, 2]⟩
    else .error "not attached", fun _ => ⟨time, time, fun _ _ => .error "not readable"⟩, 0, .ok ()⟩

/-- Two threads are captured under some mappings. -/
def firstCall : Call := .bootstrap [testMap "/old"]
  ⟨.ok (), .ok [testFound 7, testFound 8], 0, testRound 1 [], .ok ()⟩ (testRound 1 [7, 8])

/-- One of the threads is captured again under other mappings. -/
def secondCall : Call := .poll [testMap "/new"]
  ⟨.ok (), .ok [testFound 7, testFound 8], 10 ^ 10, testRound 2 [7], .ok ()⟩

def testSampler [Target] (calls : List Call) : Sampler :=
  ((new ⟨42, 1⟩ none).run calls).getD (new ⟨42, 1⟩ none)

/-- What the thread with the number retains. -/
def testEpoch [Target] (tid : ℤ) : Option UInt64 :=
  ((testSampler [firstCall, secondCall]).threads.get? tid).bind fun thread => thread.latest.mapEpoch

/-- The sample that was not taken again has its old mappings, and both are listed. -/
theorem run_retains_secondCall :
    let _ : Target := ⟨false⟩
    let s := testSampler [firstCall, secondCall]
    (new ⟨42, 1⟩ none).run [firstCall, secondCall] = some s ∧ testEpoch 7 = some 2 ∧
      testEpoch 8 = some 1 ∧
      s.mappingSnapshots.filter (fun c => c.epoch = 1) = [⟨1, [testMap "/old"]⟩] ∧
      ∀ c ∈ s.mappingSnapshots, ∀ d ∈ s.mappingSnapshots, c.epoch = d.epoch → c.maps = d.maps := by
  intro _ s
  have hrun : (new ⟨42, 1⟩ none).run [firstCall, secondCall] = some s := rfl
  obtain ⟨hthreads, hmaps⟩ := run_retains hrun (show s.run [] = some s from rfl)
  obtain ⟨thread, hthread⟩ : ∃ thread, s.threads.get? 8 = some thread := ⟨_, rfl⟩
  obtain ⟨-, -, hlisted⟩ := hthreads 8 thread hthread
  obtain ⟨epoch, hepoch, hfilter⟩ := hlisted _ _ (by obtain rfl := Option.some.inj hthread; rfl)
  obtain rfl : epoch = 1 := by
    obtain rfl := Option.some.inj hthread
    exact (Option.some.inj hepoch).symm
  exact ⟨hrun, rfl, rfl, hfilter, hmaps⟩

end Sampler

end Procinsh.Sampling
