import Mathlib.Data.List.Perm.Subperm
import Procinsh.Foundation.Ancestry
import Procinsh.Foundation.Lists
import Procinsh.Space.ProcessLayout

/-!
# Breaking the cycles of parents

`treeLayout` goes up from every process and, where it runs into a cycle, makes the lowest member a
root.  Afterwards every way up ends, and the lowest member of each cycle is all that has lost its
parent.
-/

namespace Procinsh.Space.ProcessLayout

variable {parents parents' : OrderedMap String (Option String)} {start id : String}
  {path ids keys : List String} {steps : ℕ}

/-- The parent of a process, if it is known and has one. -/
def parentOf (parents : OrderedMap String (Option String)) (id : String) : Option String :=
  (parents.get? id).join

theorem parentOf_of_get? {parent : Option String} (h : parents.get? id = some parent) :
    parentOf parents id = parent := by
  rw [parentOf, h, Option.join_some]

/-- Who has a parent is known. -/
theorem mem_keys_of_parentOf {parent : String} (h : parentOf parents id = some parent) :
    id ∈ parents.entries.map Prod.fst := by
  by_contra hid
  rw [parentOf, OrderedMap.get?_eq_none_iff.mpr hid] at h
  cases h

/-! ## The way up -/

/-- The way from a process up to where the walk goes next. -/
structure Way (parents : OrderedMap String (Option String)) (start : String) (path : List String)
    (next : Option String) : Prop where
  chain : (path ++ next.toList).IsChain (Climbs (parentOf parents))
  nodup : path.Nodup
  known : path ⊆ parents.entries.map Prod.fst
  reaches : ∀ id ∈ path ++ next.toList, Reaches (parentOf parents) start id
  ends : next = none → Ends (parentOf parents) start

theorem Way.begin (parents : OrderedMap String (Option String)) (start : String) :
    Way parents start [] (some start) where
  chain := List.isChain_singleton start
  nodup := List.nodup_nil
  known := List.nil_subset _
  reaches id hid := by
    obtain rfl := List.mem_singleton.mp hid
    exact Reaches.refl _ id
  ends h := by cases h

/-- One step of the walk. -/
theorem Way.step (h : Way parents start path (some id)) {parent : Option String}
    (hget : parents.get? id = some parent) (hnew : id ∉ path) :
    Way parents start (path ++ [id]) parent := by
  have hparent := parentOf_of_get? hget
  have hreaches : Reaches (parentOf parents) start id :=
    h.reaches id (List.mem_append_right _ List.mem_cons_self)
  constructor
  · refine List.isChain_append.mpr ⟨h.chain, ?_, fun x hx y hy => ?_⟩
    · cases parent with
      | none => exact List.isChain_nil
      | some q => exact List.isChain_singleton q
    · rw [List.getLast?_concat] at hx
      obtain rfl := Option.some_inj.mp hx
      cases parent with
      | none => cases hy
      | some q =>
        obtain rfl := Option.some_inj.mp hy
        exact hparent
  · refine List.nodup_append.mpr ⟨h.nodup, List.nodup_singleton id, ?_⟩
    rintro a ha b hb rfl
    exact hnew (List.mem_singleton.mp hb ▸ ha)
  · refine List.append_subset.mpr ⟨h.known, List.cons_subset.mpr ⟨?_, List.nil_subset _⟩⟩
    exact List.mem_map.mpr ⟨(id, parent), OrderedMap.get?_eq_some_iff.mp hget, rfl⟩
  · intro x hx
    rcases List.mem_append.mp hx with hx | hx
    · exact h.reaches x hx
    · obtain rfl : parent = some x := Option.mem_toList.mp hx
      exact hreaches.tail hparent
  · rintro rfl
    exact ⟨id, hreaches, hparent⟩

/-- With as many steps as there are processes, and one more, the walk ends or finds a cycle. -/
theorem cycleAbove_spec {next : Option String} (h : Way parents start path next)
    (hsteps : parents.size < path.length + steps) :
    (cycleAbove parents steps path next = some none ∧ Ends (parentOf parents) start) ∨
    ∃ c l, cycleAbove parents steps path next = some (some (c :: l)) ∧
      Reaches (parentOf parents) start c ∧
      (c :: l ++ [c]).IsChain (Climbs (parentOf parents)) := by
  induction steps generalizing path next with
  | zero =>
    -- No more processes are on the way than there are.
    have hlength := (List.subperm_of_subset h.nodup h.known).length_le
    rw [List.length_map] at hlength
    exact absurd hsteps (not_lt.mpr hlength)
  | succ steps ih =>
    cases next with
    | none => exact .inl ⟨rfl, h.ends rfl⟩
    | some id =>
      rw [cycleAbove]
      cases hget : parents.get? id with
      | none =>
        refine .inl ⟨rfl, id, h.reaches id (List.mem_append_right _ List.mem_cons_self), ?_⟩
        rw [parentOf, hget, Option.join_none]
      | some parent =>
        dsimp only
        by_cases hid : id ∈ path
        · rw [if_pos hid]
          have hdrop : path.drop (path.idxOf id) = id :: path.drop (path.idxOf id + 1) := by
            rw [List.drop_eq_getElem_cons (List.idxOf_lt_length_of_mem hid), List.getElem_idxOf]
          refine .inr ⟨id, path.drop (path.idxOf id + 1), by rw [hdrop],
            h.reaches id (List.mem_append_left _ hid), ?_⟩
          rw [← hdrop]
          have hchain := h.chain
          rw [← List.take_append_drop (path.idxOf id) path, List.append_assoc] at hchain
          exact hchain.right_of_append
        · rw [if_neg hid]
          refine ih (h.step hget hid) ?_
          rw [List.length_append, List.length_singleton]
          omega

/-- More steps make no difference. -/
theorem cycleAbove_mono {next : Option String} {steps' : ℕ} (hle : steps ≤ steps')
    {result : Option (List String)} (h : cycleAbove parents steps path next = some result) :
    cycleAbove parents steps' path next = some result := by
  induction steps generalizing steps' path next with
  | zero => cases h
  | succ steps ih =>
    obtain ⟨more, rfl⟩ := Nat.exists_eq_add_of_le' (Nat.le_trans (Nat.succ_pos steps) hle)
    cases next with
    | none => exact h
    | some id =>
      rw [cycleAbove] at h ⊢
      cases hget : parents.get? id with
      | none =>
        rw [hget] at h
        exact h
      | some parent =>
        rw [hget] at h
        dsimp only at h ⊢
        split at h
        · next hid => rwa [if_pos hid]
        · next hid =>
          rw [if_neg hid]
          exact ih (Nat.le_of_succ_le_succ hle) h

theorem breakCycle_mono {steps' : ℕ} (hle : steps ≤ steps')
    (h : breakCycle keys steps parents id = some parents') :
    breakCycle keys steps' parents id = some parents' := by
  rw [breakCycle] at h ⊢
  obtain ⟨result, hresult, h⟩ := Option.bind_eq_some_iff.mp h
  rw [cycleAbove_mono hle hresult]
  exact h

/-! ## The lowest member -/

theorem lowest_spec (keys : List String) (c : String) (l : List String) :
    ∃ root, lowest keys (c :: l) = some root ∧ root ∈ c :: l ∧
      ∀ id ∈ c :: l, rank keys root ≤ rank keys id := by
  induction l generalizing c with
  | nil =>
    refine ⟨c, rfl, List.mem_cons_self, fun id hid => ?_⟩
    rw [List.mem_singleton.mp hid]
  | cons d l ih =>
    obtain ⟨root, hroot, hmem, hmin⟩ := ih (if rank keys c < rank keys d then c else d)
    refine ⟨root, hroot, ?_, fun id hid => ?_⟩
    · rcases List.mem_cons.mp hmem with rfl | hmem
      · split
        · exact List.mem_cons_self
        · exact List.mem_cons_of_mem _ List.mem_cons_self
      · exact List.mem_cons_of_mem _ (List.mem_cons_of_mem _ hmem)
    · have hfirst := hmin _ List.mem_cons_self
      rcases List.mem_cons.mp hid with rfl | hid
      · split at hfirst <;> omega
      · rcases List.mem_cons.mp hid with rfl | hid
        · split at hfirst <;> omega
        · exact hmin id (List.mem_cons_of_mem _ hid)

/-! ## Breaking a cycle -/

/-- What breaking the cycle above a process does: nothing, if there is none, and otherwise its
lowest member loses its parent. -/
theorem breakCycle_cases (keys : List String) (hsteps : parents.size < steps) (id : String) :
    (breakCycle keys steps parents id = some parents ∧ Ends (parentOf parents) id) ∨
    ∃ root, breakCycle keys steps parents id = some (parents.set root none) ∧
      Reaches (parentOf parents) id root ∧
      LowestOnCycle (rank keys) (parentOf parents) root := by
  have hlength : parents.size < ([] : List String).length + steps := by
    rwa [List.length_nil, Nat.zero_add]
  rw [breakCycle]
  rcases cycleAbove_spec (Way.begin parents id) hlength with ⟨hcycle, hends⟩ |
    ⟨c, l, hcycle, hreaches, hloop⟩
  · rw [hcycle]
    exact .inl ⟨rfl, hends⟩
  · obtain ⟨root, hroot, hmem, hmin⟩ := lowest_spec keys c l
    refine .inr ⟨root, ?_, hreaches.trans (reaches_of_mem_loop hloop hmem).1,
      onCycle_of_mem_loop hloop hmem, fun b hb => hmin b (mem_loop_of_reaches hloop hmem hb)⟩
    rw [hcycle, Option.bind_eq_bind, Option.bind_some]
    dsimp only
    rw [hroot]
    rfl

theorem parentOf_set_self (parents : OrderedMap String (Option String)) (root : String) :
    parentOf (parents.set root none) root = none := by
  rw [parentOf, OrderedMap.get?_set_self, Option.join_some]

theorem parentOf_set_ne (parents : OrderedMap String (Option String)) {root : String}
    (h : id ≠ root) : parentOf (parents.set root none) id = parentOf parents id := by
  rw [parentOf, parentOf, OrderedMap.get?_set_ne _ h]

/-- What has been kept of the parents when the cycles above some processes are broken. -/
structure Broken (keys : List String) (given parents : OrderedMap String (Option String))
    (done : List String) : Prop where
  known : parents.entries.map Prod.fst = given.entries.map Prod.fst
  cut : ∀ id, parentOf parents id = parentOf given id ∨
    parentOf parents id = none ∧ LowestOnCycle (rank keys) (parentOf given) id
  ends : ∀ id ∈ done, Ends (parentOf parents) id

/-- No parent is new. -/
theorem Broken.sub {given : OrderedMap String (Option String)} {done : List String}
    (h : Broken keys given parents done) (a b : String) (hab : parentOf parents a = some b) :
    parentOf given a = some b := by
  rcases h.cut a with ha | ⟨ha, -⟩
  · rwa [← ha]
  · rw [ha] at hab
    cases hab

/-- One more process is done. -/
theorem Broken.step {given : OrderedMap String (Option String)} {done : List String}
    (h : Broken keys given parents done) (hsteps : parents.size < steps) (id : String) :
    ∃ parents', breakCycle keys steps parents id = some parents' ∧
      Broken keys given parents' (done ++ [id]) := by
  rcases breakCycle_cases keys hsteps id with ⟨hbreak, hends⟩ | ⟨root, hbreak, hreaches, hlowest⟩
  · refine ⟨parents, hbreak, h.known, h.cut, fun a ha => ?_⟩
    rcases List.mem_append.mp ha with ha | ha
    · exact h.ends a ha
    · rwa [List.mem_singleton.mp ha]
  · have hcut := parentOf_set_self parents root
    have hkeep (a : String) (ha : a ≠ root) := parentOf_set_ne parents ha
    have hroot : root ∈ parents.entries.map Prod.fst := by
      obtain ⟨p, hp, -⟩ := onCycle_iff.mp hlowest.1
      exact mem_keys_of_parentOf hp
    refine ⟨parents.set root none, hbreak, ?_, fun a => ?_, fun a ha => ?_⟩
    · rw [← h.known]
      exact OrderedMap.keys_setEntry_of_mem hroot
    · by_cases ha : a = root
      · rw [ha]
        exact .inr ⟨hcut, hlowest.mono h.sub⟩
      · rw [hkeep a ha]
        exact h.cut a
    · rcases List.mem_append.mp ha with ha | ha
      · exact (h.ends a ha).cut hcut hkeep
      · rw [List.mem_singleton.mp ha]
        exact hreaches.ends_of_cut hcut hkeep

theorem Broken.run {given : OrderedMap String (Option String)} {done : List String}
    (h : Broken keys given parents done) (hsteps : given.size < steps) (ids : List String) :
    ∃ parents', ids.foldlM (breakCycle keys steps) parents = some parents' ∧
      Broken keys given parents' (done ++ ids) := by
  induction ids generalizing parents done with
  | nil =>
    rw [List.append_nil]
    exact ⟨parents, rfl, h⟩
  | cons id ids ih =>
    have hsize : parents.size = given.size := by
      have hlength := congrArg List.length h.known
      rwa [List.length_map, List.length_map] at hlength
    obtain ⟨parents₁, hbreak, h₁⟩ := h.step (hsize ▸ hsteps) id
    obtain ⟨parents₂, hrun, h₂⟩ := ih h₁
    refine ⟨parents₂, ?_, by rwa [List.append_cons]⟩
    rw [List.foldlM_cons, hbreak]
    exact hrun

/-- Ranks tell the processes on cycles apart. -/
theorem eq_of_rank_eq {given : OrderedMap String (Option String)} {a b : String}
    (hkeys : given.entries.map Prod.fst = keys) (ha : OnCycle (parentOf given) a)
    (hab : rank keys a = rank keys b) : a = b := by
  obtain ⟨p, hp, -⟩ := onCycle_iff.mp ha
  exact (List.idxOf_inj (hkeys ▸ mem_keys_of_parentOf hp)).mp hab

/-- The cycles are broken: every way up ends, and a parent is what was given, unless the process is
the lowest on a cycle. -/
theorem foldlM_breakCycle {given : OrderedMap String (Option String)}
    (hkeys : given.entries.map Prod.fst = keys) (hsteps : given.size < steps) :
    ∃ parents, keys.foldlM (breakCycle keys steps) given = some parents ∧
      parents.entries.map Prod.fst = keys ∧ (∀ id, Ends (parentOf parents) id) ∧
      ∀ a b, parentOf parents a = some b ↔
        parentOf given a = some b ∧ ¬ LowestOnCycle (rank keys) (parentOf given) a := by
  have hstart : Broken keys given given [] :=
    ⟨rfl, fun _ => .inl rfl, fun _ h => absurd h List.not_mem_nil⟩
  obtain ⟨parents, hrun, h⟩ := hstart.run hsteps keys
  have hknown : parents.entries.map Prod.fst = keys := h.known.trans hkeys
  have hends (id : String) : Ends (parentOf parents) id := by
    by_cases hid : id ∈ keys
    · exact h.ends id hid
    · refine ⟨id, Reaches.refl _ id, Option.eq_none_iff_forall_ne_some.mpr fun p hp => hid ?_⟩
      exact hknown ▸ mem_keys_of_parentOf hp
  refine ⟨parents, hrun, hknown, hends, fun a b => ⟨fun hab => ⟨h.sub a b hab, fun ha => ?_⟩, ?_⟩⟩
  · rw [ha.parent_eq_none (fun _ _ ha _ => eq_of_rank_eq hkeys ha) h.cut (hends a)] at hab
    cases hab
  · rintro ⟨hab, ha⟩
    rcases h.cut a with hcut | ⟨-, hlowest⟩
    · rwa [hcut]
    · exact absurd hlowest ha

end Procinsh.Space.ProcessLayout
