import Mathlib.Data.List.Dedup
import Procinsh.Space.RecentFiles

/-!
# Runs of the recent files

What holds of the recent files after any run, as a store of bounded size in the order of last use.
The calls of a run are taken apart into actions, one for each event, and everything is proved of one
action first: which keys it leaves and in which order, what it adds to the entry that it uses, and
how many entries it evicts.
-/

namespace Procinsh.Space

namespace RecentFiles

variable {files : RecentFiles} {now : Double} {live retained : String → Bool} {e : FileActivity}

/-- The keys of the entries, in the order of the map. -/
def keys (files : RecentFiles) : List String := files.entries.entries.map Prod.fst

/-- The keys of the entries of a process. -/
def ownedKeys (files : RecentFiles) (owner : String) : List String :=
  (files.entries.entries.filter fun x => key x.2.processId = owner).map Prod.fst

/-- An entry has its key in its `id`, and its process is the one of the events with that key. -/
def WellKeyed (files : RecentFiles) : Prop :=
  ∀ x ∈ files.entries.entries, x.2.id = x.1 ∧
    ∀ e, fileKey e = x.1 → key e.processId = key x.2.processId

/-- The key that a use evicts: at the limit of its process the first one of the process, at the
limit of the map the first one of all, and none if the file is known or there is room. -/
def evictee? (files : RecentFiles) (e : FileActivity) : Option String :=
  if fileKey e ∈ files.keys then none
  else if 32 ≤ (files.ownedKeys (key e.processId)).length then
    (files.ownedKeys (key e.processId)).head?
  else if 512 ≤ files.keys.length then files.keys.head?
  else none

/-! ## One use -/

theorem key_of_fileKey_eq {e e' : FileActivity} (h : fileKey e = fileKey e') :
    key e.processId = key e'.processId :=
  Json.string_eq_of_text_array_eq h

theorem isSome_get?_iff : (files.entries.get? (fileKey e)).isSome ↔ fileKey e ∈ files.keys := by
  rw [Option.isSome_iff_ne_none, ne_eq, OrderedMap.get?_eq_none_iff, not_not, keys]

/-- The entry that an event uses, before the use. -/
def current (files : RecentFiles) (now : Double) (e : FileActivity) : RecentFile :=
  (files.entries.get? (fileKey e)).getD (newFile now e)

/-- The files among which an event uses one: room is made for one that is new. -/
def room (files : RecentFiles) (e : FileActivity) : RecentFiles :=
  if (files.entries.get? (fileKey e)).isSome then files else files.makeRoom e

theorem use_eq : files.use now e = { files.room e with
    entries := ((files.room e).entries.erase (fileKey e)).set (fileKey e)
      ((files.current now e).record now e) } := by
  rw [use, room, current]
  cases files.entries.get? (fileKey e) with
  | none => rfl
  | some file => rfl

/-- The ids of the entries of a process are their keys. -/
theorem WellKeyed.map_id_owned (h : files.WellKeyed) (owner : String) :
    (files.entries.values.filter fun file => key file.processId = owner).map RecentFile.id =
      files.ownedKeys owner := by
  rw [OrderedMap.values, List.filter_map, List.map_map, ownedKeys]
  exact List.map_congr_left fun x hx => (h x (List.mem_filter.mp hx).1).1

theorem WellKeyed.map_id_values (h : files.WellKeyed) :
    files.entries.values.map RecentFile.id = files.keys := by
  rw [OrderedMap.values, List.map_map, keys]
  exact List.map_congr_left fun x hx => (h x hx).1

/-- The `id` of the entry that an insertion evicts is its key. -/
theorem WellKeyed.map_id_victim? (h : files.WellKeyed) (hnew : fileKey e ∉ files.keys) :
    (files.victim? e).map RecentFile.id = files.evictee? e := by
  have howned := h.map_id_owned (key e.processId)
  have hvalues := h.map_id_values
  have hlength := congrArg List.length howned
  rw [List.length_map] at hlength
  have hsize : files.entries.size = files.keys.length := by
    rw [keys, List.length_map, OrderedMap.size]
  rw [victim?, evictee?, if_neg hnew, ← howned, ← hvalues, List.length_map, List.length_map,
    OrderedMap.size, List.head?_map, List.head?_map, OrderedMap.values, List.length_map]
  split
  · rfl
  · split
    · rfl
    · rfl

/-- Making room removes the entry that is evicted, and counts it. -/
theorem WellKeyed.room_spec (h : files.WellKeyed) :
    (files.room e).entries.entries =
        files.entries.entries.filter (fun x => some x.1 ≠ files.evictee? e) ∧
      (files.room e).evicted = files.evicted + (files.evictee? e).toList.length := by
  by_cases hknown : fileKey e ∈ files.keys
  · have hnone : files.evictee? e = none := if_pos hknown
    rw [room, if_pos (isSome_get?_iff.mpr hknown), hnone]
    simp
  · rw [room, if_neg (isSome_get?_iff.not.mpr hknown), makeRoom, ← h.map_id_victim? hknown]
    cases files.victim? e with
    | none => simp
    | some victim => simp [OrderedMap.erase]

/-- What a use does to the entries: the one of the file goes to the end, and one may be evicted. -/
theorem WellKeyed.entries_use (h : files.WellKeyed) (now : Double) (e : FileActivity) :
    (files.use now e).entries.entries =
      files.entries.entries.filter (fun x => x.1 ≠ fileKey e ∧ some x.1 ≠ files.evictee? e) ++
        [(fileKey e, (files.current now e).record now e)] := by
  have herase := OrderedMap.entries_set_of_get?_eq_none
    (OrderedMap.get?_erase_self (files.room e).entries (fileKey e))
    ((files.current now e).record now e)
  have hothers : ((files.room e).entries.erase (fileKey e)).entries =
      (files.room e).entries.entries.filter (·.1 ≠ fileKey e) := rfl
  rw [use_eq, herase, hothers, h.room_spec.1, List.filter_filter]
  simp only [ne_eq, decide_not, Bool.decide_and]

theorem WellKeyed.evicted_use (h : files.WellKeyed) (now : Double) (e : FileActivity) :
    (files.use now e).evicted = files.evicted + (files.evictee? e).toList.length := by
  rw [use_eq]
  exact h.room_spec.2

theorem current_spec (h : files.WellKeyed) (now : Double) (e : FileActivity) :
    (files.current now e).id = fileKey e ∧
      key (files.current now e).processId = key e.processId := by
  rw [current]
  cases hget : files.entries.get? (fileKey e) with
  | none => exact ⟨rfl, rfl⟩
  | some file =>
    have hmem := OrderedMap.get?_eq_some_iff.mp hget
    exact ⟨(h _ hmem).1, ((h _ hmem).2 e rfl).symm⟩

/-- A use keeps the keys right. -/
theorem WellKeyed.use (h : files.WellKeyed) (now : Double) (e : FileActivity) :
    (files.use now e).WellKeyed := by
  intro x hx
  rw [h.entries_use, List.mem_append, List.mem_singleton] at hx
  rcases hx with hx | rfl
  · exact h x (List.mem_filter.mp hx).1
  · obtain ⟨hid, hkey⟩ := current_spec h now e
    exact ⟨hid, fun e' he' => (key_of_fileKey_eq he').trans hkey.symm⟩

/-! ### Bounds -/

/-- The keys that a use leaves where they are. -/
def leaves (files : RecentFiles) (e : FileActivity) (k : String) : Bool :=
  k ≠ fileKey e ∧ some k ≠ files.evictee? e

theorem WellKeyed.keys_use (h : files.WellKeyed) (now : Double) (e : FileActivity) :
    (files.use now e).keys = files.keys.filter (files.leaves e) ++ [fileKey e] := by
  rw [keys, h.entries_use, List.map_append, keys, List.filter_map]
  rfl

theorem WellKeyed.ownedKeys_use (h : files.WellKeyed) (now : Double) (e : FileActivity)
    (owner : String) : (files.use now e).ownedKeys owner =
      (files.ownedKeys owner).filter (files.leaves e) ++
        if key e.processId = owner then [fileKey e] else [] := by
  have hown : ([(fileKey e, (files.current now e).record now e)].filter fun x =>
      key x.2.processId = owner).map Prod.fst = if key e.processId = owner then [fileKey e] else [] := by
    have hkey : key ((files.current now e).record now e).processId = key e.processId :=
      (current_spec h now e).2
    by_cases ho : key e.processId = owner
    · simp [hkey, ho]
    · simp [hkey, ho]
  rw [ownedKeys, h.entries_use, List.filter_append, List.map_append, hown, ownedKeys,
    List.filter_map, List.filter_filter, List.filter_filter]
  simp only [Bool.and_comm]
  rfl

/-- A use removes one of the keys of a list at its limit. -/
theorem length_filter_lt {l : List String} {p : String → Bool} {n : ℕ} (hn : l.length ≤ n)
    (h : l.length = n → ∃ k ∈ l, ¬ p k) : (l.filter p).length + 1 ≤ n ∨ l.length < n := by
  rcases hn.lt_or_eq with hlt | heq
  · exact Or.inr hlt
  · have hfilter := List.length_filter_lt_length_iff_exists.mpr (h heq)
    exact Or.inl (by omega)

/-- The number of entries is within the limits. -/
structure Bounded (files : RecentFiles) : Prop where
  owned : ∀ owner, (files.ownedKeys owner).length ≤ 32
  all : files.keys.length ≤ 512

theorem ownedKeys_subset (owner : String) : files.ownedKeys owner ⊆ files.keys :=
  List.map_subset _ (List.filter_subset_self _)

theorem mem_ownedKeys (h : files.WellKeyed) (hknown : fileKey e ∈ files.keys) :
    fileKey e ∈ files.ownedKeys (key e.processId) := by
  obtain ⟨x, hx, hfst⟩ := List.mem_map.mp hknown
  refine List.mem_map.mpr ⟨x, List.mem_filter.mpr ⟨hx, ?_⟩, hfst⟩
  simpa using ((h x hx).2 e hfst.symm).symm

theorem exists_head?_eq {l : List String} (h : 0 < l.length) : ∃ k ∈ l, l.head? = some k := by
  obtain ⟨first, rest, rfl⟩ := List.exists_cons_of_length_pos h
  exact ⟨first, List.mem_cons_self, rfl⟩

theorem not_leaves_of_evictee?_eq {k : String} (h : files.evictee? e = some k) :
    ¬ files.leaves e k := by
  simp [leaves, h]

/-- At the limit of its process a use removes one of the keys of the process. -/
theorem exists_removed_of_owned (h : files.WellKeyed)
    (hfull : (files.ownedKeys (key e.processId)).length = 32) :
    ∃ k ∈ files.ownedKeys (key e.processId), ¬ files.leaves e k := by
  by_cases hknown : fileKey e ∈ files.keys
  · exact ⟨fileKey e, mem_ownedKeys h hknown, by simp [leaves]⟩
  · obtain ⟨first, hfirst, hhead⟩ := exists_head?_eq
      (l := files.ownedKeys (key e.processId)) (by omega)
    refine ⟨first, hfirst, not_leaves_of_evictee?_eq ?_⟩
    rw [evictee?, if_neg hknown, if_pos hfull.ge, hhead]

/-- At the limit of the map a use removes one of the keys. -/
theorem exists_removed (hfull : files.keys.length = 512) :
    ∃ k ∈ files.keys, ¬ files.leaves e k := by
  by_cases hknown : fileKey e ∈ files.keys
  · exact ⟨fileKey e, hknown, by simp [leaves]⟩
  by_cases howned : 32 ≤ (files.ownedKeys (key e.processId)).length
  · obtain ⟨first, hfirst, hhead⟩ := exists_head?_eq ((Nat.zero_lt_succ 31).trans_le howned)
    refine ⟨first, ownedKeys_subset _ hfirst, not_leaves_of_evictee?_eq ?_⟩
    rw [evictee?, if_neg hknown, if_pos howned, hhead]
  · obtain ⟨first, hfirst, hhead⟩ := exists_head?_eq (l := files.keys) (by omega)
    refine ⟨first, hfirst, not_leaves_of_evictee?_eq ?_⟩
    rw [evictee?, if_neg hknown, if_neg howned, if_pos hfull.ge, hhead]

theorem Bounded.use (hb : files.Bounded) (h : files.WellKeyed) (now : Double) (e : FileActivity) :
    (files.use now e).Bounded := by
  refine ⟨fun owner => ?_, ?_⟩
  · rw [h.ownedKeys_use, List.length_append]
    have hle := List.length_filter_le (files.leaves e) (files.ownedKeys owner)
    have hbound := hb.owned owner
    split
    · rename_i howner
      have hroom := length_filter_lt hbound fun hfull =>
        howner ▸ exists_removed_of_owned h (howner.symm ▸ hfull)
      rw [List.length_singleton]
      omega
    · rw [List.length_nil]
      omega
  · rw [h.keys_use, List.length_append, List.length_singleton]
    have hle := List.length_filter_le (files.leaves e) files.keys
    have hroom := length_filter_lt hb.all (exists_removed (e := e))
    omega

end RecentFiles

/-! ## Actions -/

/-- What happens to the files at once: entries expire, an event arrives, or all are cleared. -/
inductive Action
  | expire (now : Double) (live retained : String → Bool)
  | event (now : Double) (live : String → Bool) (e : FileActivity)
  | clear

namespace Action

/-- The event that an action accepts. -/
def accepted? : Action → Option FileActivity
  | event _ live e => if e.accepted live then some e else none
  | _ => none

/-- The clock reading of an action. -/
def now? : Action → Option Double
  | expire now _ _ | event now _ _ => some now
  | clear => none

end Action

namespace RecentFiles

variable {files : RecentFiles} {a : Action} {as : List Action}

/-- The files after an action. -/
def perform (files : RecentFiles) : Action → RecentFiles
  | .expire now live retained => (files.prune now live retained).1
  | .event now live e => if e.accepted live then files.use now e else files
  | .clear => files.clear

/-- The files after actions. -/
def performAll (files : RecentFiles) (as : List Action) : RecentFiles := as.foldl perform files

@[simp] theorem performAll_nil (files : RecentFiles) : files.performAll [] = files := rfl

@[simp] theorem performAll_cons (files : RecentFiles) (a : Action) (as : List Action) :
    files.performAll (a :: as) = (files.perform a).performAll as := rfl

theorem performAll_append (files : RecentFiles) (as bs : List Action) :
    files.performAll (as ++ bs) = (files.performAll as).performAll bs := List.foldl_append

theorem performAll_concat (files : RecentFiles) (as : List Action) (a : Action) :
    files.performAll (as ++ [a]) = (files.performAll as).perform a := List.foldl_append

/-- An action uses a file, or keeps some of the entries as they are. -/
theorem perform_cases (files : RecentFiles) (a : Action) :
    (∃ now live e, a = .event now live e ∧ a.accepted? = some e ∧
      files.perform a = files.use now e) ∨
    (a.accepted? = none ∧
      (files.perform a).entries.entries.Sublist files.entries.entries) := by
  cases a with
  | expire now live retained => exact Or.inr ⟨rfl, List.filter_sublist⟩
  | event now live e =>
    cases he : e.accepted live with
    | true => exact Or.inl ⟨now, live, e, rfl, if_pos he, if_pos he⟩
    | false =>
      refine Or.inr ⟨if_neg (by simp [he]), ?_⟩
      rw [perform, he, if_neg Bool.false_ne_true]
  | clear => exact Or.inr ⟨rfl, List.nil_sublist _⟩

/-- What is kept of the entries in every run. -/
structure Sound (files : RecentFiles) : Prop where
  wellKeyed : files.WellKeyed
  bounded : files.Bounded

theorem Sound.of_sublist {other : RecentFiles} (h : files.Sound)
    (hsub : other.entries.entries.Sublist files.entries.entries) : other.Sound where
  wellKeyed := fun x hx => h.wellKeyed x (hsub.subset hx)
  bounded :=
    ⟨fun owner => (((hsub.filter _).map Prod.fst).length_le).trans (h.bounded.owned owner),
      ((hsub.map Prod.fst).length_le).trans h.bounded.all⟩

theorem Sound.perform (h : files.Sound) (a : Action) : (files.perform a).Sound := by
  rcases files.perform_cases a with ⟨now, live, e, -, -, heq⟩ | ⟨-, hsub⟩
  · rw [heq]
    exact ⟨h.wellKeyed.use now e, h.bounded.use h.wellKeyed now e⟩
  · exact h.of_sublist hsub

theorem sound_empty : empty.Sound :=
  ⟨fun _ hx => absurd hx List.not_mem_nil, ⟨fun _ => Nat.zero_le _, Nat.zero_le _⟩⟩

theorem Sound.performAll (h : files.Sound) (as : List Action) : (files.performAll as).Sound := by
  induction as generalizing files with
  | nil => exact h
  | cons a as ih => exact ih (h.perform a)

/-! ### The order of the entries -/

/-- The keys of the files that actions use, with repetitions. -/
def used (as : List Action) : List String := (as.filterMap Action.accepted?).map fileKey

/-- A list with an element behind it has the element last, also without repetitions. -/
theorem dedup_concat (l : List String) (k : String) :
    (l ++ [k]).dedup = l.dedup.filter (· ≠ k) ++ [k] := by
  induction l with
  | nil => rfl
  | cons j l ih =>
    by_cases hj : j ∈ l
    · rw [List.cons_append, List.dedup_cons_of_mem (List.mem_append_left _ hj),
        List.dedup_cons_of_mem hj, ih]
    · by_cases hk : j = k
      · subst hk
        rw [List.cons_append, List.dedup_cons_of_mem (by simp), List.dedup_cons_of_notMem hj, ih,
          List.filter_cons_of_neg (by simp)]
      · rw [List.cons_append, List.dedup_cons_of_notMem (by simp [hj, hk]),
          List.dedup_cons_of_notMem hj, ih, List.filter_cons_of_pos (by simpa using hk),
          List.cons_append]

/-- The entries are in the order of last use. -/
theorem keys_sublist_dedup (as : List Action) :
    (empty.performAll as).keys.Sublist (used as).dedup := by
  induction as using List.reverseRecOn with
  | nil => exact List.nil_sublist _
  | append_singleton as a ih =>
    rw [performAll_concat, used, List.filterMap_append, List.map_append]
    rcases (empty.performAll as).perform_cases a with ⟨now, live, e, -, he, heq⟩ | ⟨hnone, hsub⟩
    · have hused : ([a].filterMap Action.accepted?).map fileKey = [fileKey e] := by simp [he]
      rw [hused, dedup_concat, heq, (sound_empty.performAll as).wellKeyed.keys_use]
      refine List.Sublist.append ?_ (List.Sublist.refl _)
      have hfilter : (empty.performAll as).keys.filter ((empty.performAll as).leaves e) =
          ((empty.performAll as).keys.filter
            (fun k => some k ≠ (empty.performAll as).evictee? e)).filter (· ≠ fileKey e) := by
        rw [List.filter_filter]
        exact List.filter_congr fun k _ => by simp [leaves]
      rw [hfilter]
      exact (List.filter_sublist.trans ih).filter _
    · have hused : ([a].filterMap Action.accepted?).map fileKey = [] := by simp [hnone]
      rw [hused, List.append_nil]
      exact (hsub.map Prod.fst).trans ih

end RecentFiles

end Procinsh.Space
