import Procinsh.Space.RecentFilesRuns

/-!
# Counters of the recent files

What an entry says about its file since it was created, how many entries have been evicted, and how
old an entry can be.  Together with the bounds and the order this is what a run of `RecentFiles`
keeps.
-/

namespace Procinsh.Space

/-- A counter is the sum of amounts, added from the first to the last.  For natural numbers this is
the exact sum as long as it has at most 53 bits. -/
structure IsSum (counter : Double) (amounts : List Double) : Prop where
  eq_total : counter = Double.total amounts
  exact : ∀ ns : List ℕ, amounts = ns.map (fun n : ℕ => .round n) → ns.sum ≤ 2 ^ 53 →
    counter = .round ns.sum

theorem isSum_total (amounts : List Double) : IsSum (Double.total amounts) amounts where
  eq_total := rfl
  exact := fun ns hns hsum => by rw [hns, Double.total_natCast hsum]

theorem IsSum.add {counter : Double} {amounts : List Double} (h : IsSum counter amounts)
    (b : Double) : IsSum (counter + b) (amounts ++ [b]) := by
  rw [h.eq_total, ← Double.total_concat]
  exact isSum_total _

/-- The counters of an entry are those of uses of its file. -/
structure RecentFile.Counts (file : RecentFile) (uses : List FileActivity) : Prop where
  readBytes : IsSum file.readBytes ((uses.filter fun e => !e.write).map FileActivity.bytes)
  writeBytes : IsSum file.writeBytes ((uses.filter fun e => e.write).map FileActivity.bytes)
  readCount : IsSum file.readCount ((uses.filter fun e => !e.write).map FileActivity.count)
  writeCount : IsSum file.writeCount ((uses.filter fun e => e.write).map FileActivity.count)

namespace RecentFile.Counts

variable {file : RecentFile} {uses : List FileActivity}

theorem newFile (now : Double) (e : FileActivity) : (newFile now e).Counts [] :=
  ⟨isSum_total [], isSum_total [], isSum_total [], isSum_total []⟩

theorem record (h : file.Counts uses) (now : Double) (e : FileActivity) :
    (file.record now e).Counts (uses ++ [e]) := by
  cases hwrite : e.write with
  | false =>
    constructor
    · simpa [RecentFile.record, hwrite] using h.readBytes.add e.bytes
    · simpa [RecentFile.record, hwrite] using h.writeBytes
    · simpa [RecentFile.record, hwrite] using h.readCount.add e.count
    · simpa [RecentFile.record, hwrite] using h.writeCount
  | true =>
    constructor
    · simpa [RecentFile.record, hwrite] using h.readBytes
    · simpa [RecentFile.record, hwrite] using h.writeBytes.add e.bytes
    · simpa [RecentFile.record, hwrite] using h.readCount
    · simpa [RecentFile.record, hwrite] using h.writeCount.add e.count

end RecentFile.Counts

namespace RecentFiles

variable {files : RecentFiles} {as : List Action}

/-! ## Since an entry was created -/

/-- The uses of a file among actions. -/
def usesOf (k : String) (as : List Action) : List FileActivity :=
  (as.filterMap Action.accepted?).filter fun e => fileKey e = k

theorem usesOf_concat_of_accepted? {k : String} {a : Action} {e : FileActivity}
    (h : a.accepted? = some e) (as : List Action) :
    usesOf k (as ++ [a]) = usesOf k as ++ if fileKey e = k then [e] else [] := by
  rw [usesOf, List.filterMap_append, List.filter_append, usesOf]
  split
  · rename_i hk
    simp [h, hk]
  · rename_i hk
    simp [h, hk]

theorem usesOf_concat_of_none {k : String} {a : Action} (h : a.accepted? = none)
    (as : List Action) : usesOf k (as ++ [a]) = usesOf k as := by
  simp [usesOf, List.filterMap_append, h]

/-- An entry was created after the first part of the actions, has been there ever since, and counts
the uses of its file in the second part. -/
def CreatedAfter (before after : List Action) (k : String) (file : RecentFile) : Prop :=
  k ∉ (empty.performAll before).keys ∧
    (∀ part, part ≠ [] → part <+: after → k ∈ (empty.performAll (before ++ part)).keys) ∧
    file.Counts (usesOf k after)

theorem mem_keys {k : String} {file : RecentFile} (h : (k, file) ∈ files.entries.entries) :
    k ∈ files.keys :=
  List.mem_map.mpr ⟨_, h, rfl⟩

theorem CreatedAfter.concat {before after : List Action} {k : String} {file other : RecentFile}
    (h : CreatedAfter before after k file) {a : Action}
    (hkey : k ∈ (empty.performAll (before ++ after ++ [a])).keys)
    (hcounts : other.Counts (usesOf k (after ++ [a]))) :
    CreatedAfter before (after ++ [a]) k other := by
  refine ⟨h.1, fun part hpart hprefix => ?_, hcounts⟩
  rcases List.prefix_concat_iff.mp hprefix with rfl | hprefix
  · rwa [← List.append_assoc]
  · exact h.2.1 part hpart hprefix

/-- Every entry counts the uses of its file since it was created. -/
theorem exists_createdAfter (as : List Action) {k : String} {file : RecentFile}
    (h : (k, file) ∈ (empty.performAll as).entries.entries) :
    ∃ before after, as = before ++ after ∧ CreatedAfter before after k file := by
  induction as using List.reverseRecOn generalizing file with
  | nil => cases h
  | append_singleton as a ih =>
    have hkey := mem_keys h
    rw [performAll_concat] at h
    rcases (empty.performAll as).perform_cases a with ⟨now, live, e, -, he, heq⟩ | ⟨hnone, hsub⟩
    · rw [heq, (sound_empty.performAll as).wellKeyed.entries_use, List.mem_append,
        List.mem_singleton, List.mem_filter] at h
      rcases h with ⟨hmem, hother⟩ | hnew
      · obtain ⟨before, after, rfl, hcreated⟩ := ih hmem
        refine ⟨before, after ++ [a], List.append_assoc _ _ _, hcreated.concat hkey ?_⟩
        have hne : fileKey e ≠ k := by
          intro heq
          simp [heq] at hother
        rw [usesOf_concat_of_accepted? he, if_neg hne, List.append_nil]
        exact hcreated.2.2
      · obtain ⟨rfl, rfl⟩ := Prod.mk.inj hnew
        rw [current]
        cases hget : (empty.performAll as).entries.get? (fileKey e) with
        | none =>
          refine ⟨as, [a], rfl, OrderedMap.get?_eq_none_iff.mp hget, ?_, ?_⟩
          · intro part hpart hprefix
            rcases List.prefix_cons_iff.mp hprefix with rfl | ⟨tail, rfl, htail⟩
            · exact absurd rfl hpart
            · rw [List.prefix_nil.mp htail]
              exact hkey
          · have huses : usesOf (fileKey e) [a] = [] ++ [e] := by simp [usesOf, he]
            rw [huses]
            exact (RecentFile.Counts.newFile now e).record now e
        | some old =>
          obtain ⟨before, after, rfl, hcreated⟩ := ih (OrderedMap.get?_eq_some_iff.mp hget)
          refine ⟨before, after ++ [a], List.append_assoc _ _ _, hcreated.concat hkey ?_⟩
          rw [usesOf_concat_of_accepted? he, if_pos rfl]
          exact hcreated.2.2.record now e
    · obtain ⟨before, after, rfl, hcreated⟩ := ih (hsub.subset h)
      refine ⟨before, after ++ [a], List.append_assoc _ _ _, hcreated.concat hkey ?_⟩
      rw [usesOf_concat_of_none hnone]
      exact hcreated.2.2

/-! ## Evictions -/

/-- The number of entries that an event removes. -/
def evictedBy (files : RecentFiles) : Action → ℕ
  | .event now live e =>
    (files.keys.filter fun k => k ∉ (files.perform (.event now live e)).keys).length
  | _ => 0

/-- The number of entries that the events among actions remove. -/
def evictions : RecentFiles → List Action → ℕ
  | _, [] => 0
  | files, a :: as => files.evictedBy a + evictions (files.perform a) as

theorem nodup_keys (files : RecentFiles) : files.keys.Nodup := files.entries.nodup

theorem mem_of_evictee?_eq {e : FileActivity} {k : String} (h : files.evictee? e = some k) :
    k ∈ files.keys ∧ k ≠ fileKey e := by
  rw [evictee?] at h
  split_ifs at h with hknown howned hall
  · have hmem := ownedKeys_subset _ (List.mem_of_head? h)
    exact ⟨hmem, fun heq => hknown (heq ▸ hmem)⟩
  · have hmem := List.mem_of_head? h
    exact ⟨hmem, fun heq => hknown (heq ▸ hmem)⟩

/-- A use removes exactly the key that it evicts. -/
theorem filter_notMem_keys_use (h : files.WellKeyed) (now : Double) (e : FileActivity) :
    files.keys.filter (fun k => k ∉ (files.use now e).keys) = (files.evictee? e).toList := by
  have hiff : ∀ k ∈ files.keys, k ∉ (files.use now e).keys ↔ files.evictee? e = some k := by
    intro k hk
    rw [h.keys_use, List.mem_append, List.mem_filter, List.mem_singleton]
    constructor
    · intro hnot
      by_contra hne
      simp [leaves, hk, Ne.symm hne] at hnot
    · intro heq
      simp [leaves, heq, (mem_of_evictee?_eq heq).2]
  rcases Option.eq_none_or_eq_some (files.evictee? e) with hevict | ⟨v, hevict⟩
  · rw [hevict, Option.toList_none, List.filter_eq_nil_iff]
    intro k hk hgone
    have hsome := (hiff k hk).mp (by simpa using hgone)
    rw [hevict] at hsome
    cases hsome
  · have hv : ∀ k ∈ files.keys, k ∉ (files.use now e).keys ↔ k = v := fun k hk => by
      rw [hiff k hk, hevict, Option.some_inj, eq_comm]
    rw [List.filter_congr fun k hk => decide_eq_decide.mpr (hv k hk), List.filter_eq,
      List.count_eq_one_of_mem files.nodup_keys (mem_of_evictee?_eq hevict).1, hevict]
    rfl

theorem evicted_perform (h : files.Sound) {a : Action} (ha : a ≠ .clear) :
    (files.perform a).evicted = files.evicted + files.evictedBy a := by
  cases a with
  | expire now live retained => rfl
  | event now live e =>
    rw [evictedBy, perform]
    split
    · rw [h.wellKeyed.evicted_use, filter_notMem_keys_use h.wellKeyed]
    · simp
  | clear => exact absurd rfl ha

theorem evicted_performAll (h : files.Sound) (has : ∀ a ∈ as, a ≠ .clear) :
    (files.performAll as).evicted = files.evicted + files.evictions as := by
  induction as generalizing files with
  | nil => rfl
  | cons a as ih =>
    obtain ⟨ha, has⟩ := List.forall_mem_cons.mp has
    rw [performAll_cons, ih (h.perform a) has, evicted_perform h ha, evictions, Nat.add_assoc]

/-- `evicted` counts the evictions since the files were cleared. -/
theorem evicted_eq {before after : List Action} (has : as = before ++ after)
    (hafter : ∀ a ∈ after, a ≠ .clear) (hbefore : before = [] ∨ before.getLast? = some .clear) :
    (empty.performAll as).evicted = (empty.performAll before).evictions after := by
  have hzero : (empty.performAll before).evicted = 0 := by
    rcases hbefore with rfl | hlast
    · rfl
    · obtain ⟨first, rfl⟩ := List.getLast?_eq_some_iff.mp hlast
      rw [performAll_concat]
      rfl
  rw [has, performAll_append, evicted_performAll (sound_empty.performAll before) hafter, hzero,
    Nat.zero_add]

/-! ## Clock readings -/

/-- Every entry was used at a clock reading of the actions. -/
theorem last_mem (as : List Action) :
    ∀ x ∈ (empty.performAll as).entries.entries, x.2.last ∈ as.filterMap Action.now? := by
  induction as using List.reverseRecOn with
  | nil => exact fun x hx => absurd hx List.not_mem_nil
  | append_singleton as a ih =>
    intro x hx
    rw [List.filterMap_append, List.mem_append]
    rw [performAll_concat] at hx
    rcases (empty.performAll as).perform_cases a with ⟨now, live, e, rfl, -, heq⟩ | ⟨-, hsub⟩
    · rw [heq, (sound_empty.performAll as).wellKeyed.entries_use, List.mem_append,
        List.mem_singleton, List.mem_filter] at hx
      rcases hx with ⟨hmem, -⟩ | rfl
      · exact Or.inl (ih x hmem)
      · exact Or.inr (by simp [Action.now?, RecentFile.record])
    · exact Or.inl (ih x (hsub.subset hx))

/-- With a clock that does not go back the entries are in the order of their readings. -/
theorem pairwise_last (as : List Action)
    (hclock : (as.filterMap Action.now?).Pairwise fun t u => t ≤ u) :
    (empty.performAll as).entries.entries.Pairwise fun x y => x.2.last ≤ y.2.last := by
  induction as using List.reverseRecOn with
  | nil => exact .nil
  | append_singleton as a ih =>
    rw [List.filterMap_append, List.pairwise_append] at hclock
    have hsorted := ih hclock.1
    rw [performAll_concat]
    rcases (empty.performAll as).perform_cases a with ⟨now, live, e, rfl, -, heq⟩ | ⟨-, hsub⟩
    · rw [heq, (sound_empty.performAll as).wellKeyed.entries_use, List.pairwise_append]
      refine ⟨hsorted.sublist List.filter_sublist, List.pairwise_singleton _ _, fun x hx y hy => ?_⟩
      rw [List.mem_singleton.mp hy]
      exact hclock.2.2 _ (last_mem as x (List.mem_filter.mp hx).1) now (by simp [Action.now?])
    · exact hsorted.sublist hsub

/-- Every entry is retained, or was used less than 30 seconds ago by a process that is live. -/
def Fresh (now : Double) (live retained : String → Bool) (files : RecentFiles) : Prop :=
  ∀ x ∈ files.entries.entries, retained x.1 ∨
    (now.value - x.2.last.value < 30000 ∧ live (key x.2.processId))

theorem fresh_prune {now : Double} {live retained : String → Bool} (hnow : now.isFinite)
    (hlast : ∀ x ∈ files.entries.entries, x.2.last.isFinite) :
    Fresh now live retained (files.prune now live retained).1 := by
  intro x hx
  obtain ⟨hmem, hkeeps⟩ := List.mem_filter.mp hx
  simp only [keeps, Bool.or_eq_true, Bool.not_eq_true', Bool.or_eq_false_iff,
    decide_eq_false_iff_not, Bool.not_eq_false'] at hkeeps
  refine hkeeps.imp_right fun hfresh => ⟨?_, hfresh.2⟩
  exact Double.value_sub_value_lt hnow (hlast x hmem) _ (by norm_num) hfresh.1

theorem Fresh.use {now : Double} {live retained : String → Bool}
    (h : files.Fresh now live retained) (hkeyed : files.WellKeyed) {e : FileActivity}
    (he : e.accepted live) : (files.use now e).Fresh now live retained := by
  intro x hx
  rw [hkeyed.entries_use, List.mem_append, List.mem_singleton, List.mem_filter] at hx
  rcases hx with ⟨hmem, -⟩ | rfl
  · exact h x hmem
  · refine Or.inr ⟨?_, ?_⟩
    · show now.value - now.value < 30000
      norm_num
    · simp only [FileActivity.accepted, Bool.and_eq_true] at he
      have hkey : key ((files.current now e).record now e).processId = key e.processId :=
        (current_spec hkeyed now e).2
      rw [hkey]
      exact he.1.1

end RecentFiles

/-! ## Runs -/

/-- A call. -/
inductive FilesCall
  | ingest (events : List FileActivity) (now : Double) (live retained : String → Bool)
  | prune (now : Double) (live retained : String → Bool)
  | clear

/-- What happens in a call. -/
def FilesCall.actions : FilesCall → List Action
  | ingest events now live retained => .expire now live retained :: events.map (.event now live)
  | prune now live retained => [.expire now live retained]
  | clear => [.clear]

namespace RecentFiles

variable {files : RecentFiles} {now : Double} {live retained : String → Bool}

/-- The files after a call. -/
def call (files : RecentFiles) : FilesCall → RecentFiles
  | .ingest events now live retained => (files.ingest events now live retained).1
  | .prune now live retained => (files.prune now live retained).1
  | .clear => files.clear

/-- The files after calls. -/
def callAll (files : RecentFiles) (calls : List FilesCall) : RecentFiles := calls.foldl call files

theorem ingest_append (events : List FileActivity) (e : FileActivity) :
    (files.ingest (events ++ [e]) now live retained).1 =
      (files.ingest events now live retained).1.perform (.event now live e) := by
  rw [ingest, List.foldl_append, ← ingest, List.foldl_cons, List.foldl_nil, ingestEvent, perform]
  split
  · rfl
  · rfl

/-- A call is what happens in it. -/
theorem call_eq (files : RecentFiles) (c : FilesCall) :
    files.call c = files.performAll c.actions := by
  cases c with
  | ingest events now live retained =>
    rw [call, FilesCall.actions]
    induction events using List.reverseRecOn with
    | nil => rfl
    | append_singleton events e ih =>
      rw [ingest_append, ih, List.map_append, ← List.cons_append, performAll_append]
      rfl
  | prune now live retained => rfl
  | clear => rfl

theorem callAll_eq (files : RecentFiles) (calls : List FilesCall) :
    files.callAll calls = files.performAll (calls.flatMap FilesCall.actions) := by
  induction calls generalizing files with
  | nil => rfl
  | cons c calls ih =>
    rw [List.flatMap_cons, performAll_append, ← call_eq, ← ih]
    rfl

theorem Sound.ingest (h : files.Sound) (events : List FileActivity) :
    (files.ingest events now live retained).1.Sound := by
  have hcall := call_eq files (.ingest events now live retained)
  rw [call] at hcall
  rw [hcall]
  exact h.performAll _

theorem fresh_ingest (h : files.Sound) (hnow : now.isFinite)
    (hlast : ∀ x ∈ files.entries.entries, x.2.last.isFinite) (events : List FileActivity) :
    (files.ingest events now live retained).1.Fresh now live retained := by
  induction events using List.reverseRecOn with
  | nil => exact fresh_prune hnow hlast
  | append_singleton events e ih =>
    rw [ingest_append, perform]
    split
    · rename_i he
      exact ih.use (h.ingest events).wellKeyed he
    · exact ih

/-- In every run with a clock that does not go back: the limits hold; the entries are in the order of
last use; an insertion evicts what `evictee?` says and moves its own entry to the end; every entry
counts the uses of its file since it was created; `evicted` counts the evictions since the last
`clear`; and after a `prune` or `ingest` every entry is retained or fresh. -/
theorem callAll_recentFiles (calls : List FilesCall) {actions : List Action}
    (hactions : actions = calls.flatMap FilesCall.actions)
    (hclock : (actions.filterMap Action.now?).Pairwise fun t u => t ≤ u)
    (hfinite : ∀ t ∈ actions.filterMap Action.now?, t.isFinite) {files : RecentFiles}
    (hfiles : empty.callAll calls = files) :
    ((∀ owner, (files.ownedKeys owner).length ≤ 32) ∧ files.keys.length ≤ 512) ∧
      (files.keys.Sublist (used actions).dedup ∧
        files.entries.values.Pairwise fun f g => f.last ≤ g.last) ∧
      (∀ now live retained events e, e.accepted live = true →
        let before := (files.ingest events now live retained).1
        let after := (files.ingest (events ++ [e]) now live retained).1
        after.keys = before.keys.filter
            (fun k => k ≠ fileKey e ∧ some k ≠ before.evictee? e) ++ [fileKey e] ∧
          after.evicted = before.evicted + (before.evictee? e).toList.length) ∧
      (∀ k file, (k, file) ∈ files.entries.entries → ∃ before after,
        actions = before ++ after ∧ CreatedAfter before after k file) ∧
      (∀ before after, actions = before ++ after → (∀ a ∈ after, a ≠ .clear) →
        before = [] ∨ before.getLast? = some .clear →
        files.evicted = (empty.performAll before).evictions after) ∧
      ∀ now live retained, now.isFinite →
        (files.prune now live retained).1.Fresh now live retained ∧
        ∀ events, (files.ingest events now live retained).1.Fresh now live retained := by
  subst hactions hfiles
  rw [callAll_eq]
  have hsound := sound_empty.performAll (calls.flatMap FilesCall.actions)
  have hlast := fun x hx => hfinite _ (last_mem (calls.flatMap FilesCall.actions) x hx)
  refine ⟨⟨hsound.bounded.owned, hsound.bounded.all⟩, ⟨keys_sublist_dedup _, ?_⟩, ?_,
    fun k file => exists_createdAfter _, fun before after => evicted_eq,
    fun now live retained hnow => ⟨fresh_prune hnow hlast, fresh_ingest hsound hnow hlast⟩⟩
  · exact List.pairwise_map.mpr (pairwise_last _ hclock)
  · intro now live retained events e he
    have hkeyed : (((empty.performAll (calls.flatMap FilesCall.actions)).ingest events now live
        retained).1).WellKeyed := (hsound.ingest events).wellKeyed
    rw [ingest_append, perform, if_pos he]
    exact ⟨hkeyed.keys_use now e, hkeyed.evicted_use now e⟩

/-- A process reads 7 bytes of a file. -/
def testActivity : FileActivity where
  processId := ⟨1, 1, none⟩
  file := ⟨8, 1, "42", 0⟩
  path := some "/tmp/example"
  write := false
  bytes := .ofInt 7 (by decide)
  count := 1

/-- An event, and a `prune` 100 ms later that retains the file. -/
def testCalls : List FilesCall :=
  [.ingest [testActivity] (.ofInt 100 (by decide)) (fun _ => true) fun _ => false,
    .prune (.ofInt 200 (by decide)) (fun _ => true) fun _ => true]

theorem callAll_testCalls :
    (empty.callAll testCalls).keys = [fileKey testActivity] ∧
      (empty.callAll testCalls).keys.Sublist (used (testCalls.flatMap FilesCall.actions)).dedup :=
  ⟨rfl, (callAll_recentFiles testCalls rfl (by decide) (by decide) rfl).2.1.1⟩

end RecentFiles

end Procinsh.Space
