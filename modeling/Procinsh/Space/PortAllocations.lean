import Procinsh.Space.IpcPorts

/-!
# Slots of ports

The loop over the requests keeps that the ports of a face have slots of their own and that a port
whose face stays the same keeps its slot, and it gives every other port a slot.  The allocations do
not depend on the order in which the ports were asked for.
-/

namespace Procinsh.Space.IpcPorts

variable {K : Type} [LinearOrder K] {requests : OrderedMap String (PortRequest K)}
  {before kept : Allocations K} {state : Allocating K}

/-! ## Slots -/

/-- The slot that is found is not used. -/
theorem freeSlot_notMem (used : Finset ℕ) (slot : ℕ) : freeSlot used slot ∉ used := by
  fun_induction freeSlot used slot with
  | case1 slot _ ih => exact ih
  | case2 slot h => exact h

/-- Ports of one face have different slots. -/
def Exclusive (allocations : Allocations K) : Prop :=
  ∀ id id' a a', id ≠ id' → allocations.get? id = some a → allocations.get? id' = some a' →
    a.face = a'.face → a.slot ≠ a'.slot

/-- What the loop over the requests keeps. -/
structure AllocatingInv (requests : OrderedMap String (PortRequest K)) (kept : Allocations K)
    (state : Allocating K) : Prop where
  exclusive : Exclusive state.allocations
  occupied : ∀ id a, state.allocations.get? id = some a →
    a.slot ∈ (state.occupied.get? a.face).getD ∅
  faces : ∀ id a, state.allocations.get? id = some a →
    ∃ port, requests.get? id = some port ∧ a.face = faceId port
  keeps : ∀ id a, kept.get? id = some a → state.allocations.get? id = some a

/-- Giving a port a slot. -/
theorem allocatePort_cases (state : Allocating K) (port : PortRequest K) :
    (∃ a, state.allocations.get? port.id = some a) ∧ allocatePort state port = state ∨
    state.allocations.get? port.id = none ∧ ∃ slot,
      slot ∉ (state.occupied.get? (faceId port)).getD ∅ ∧
      (allocatePort state port).allocations = state.allocations.set port.id ⟨faceId port, slot⟩ ∧
      (allocatePort state port).occupied = state.occupied.set (faceId port)
        (insert slot ((state.occupied.get? (faceId port)).getD ∅)) := by
  unfold allocatePort
  split
  · next h => exact .inl ⟨Option.isSome_iff_exists.mp h, rfl⟩
  · next h =>
    rw [Option.not_isSome_iff_eq_none] at h
    exact .inr ⟨h, _, freeSlot_notMem _ _, rfl, rfl⟩

theorem allocatePort_inv (hinv : AllocatingInv requests kept state) {port : PortRequest K}
    (hport : requests.get? port.id = some port) :
    AllocatingInv requests kept (allocatePort state port) := by
  rcases allocatePort_cases state port with ⟨-, heq⟩ | ⟨hnone, slot, hslot, halloc, hocc⟩
  · rwa [heq]
  · have hget (id) (a) (h : (allocatePort state port).allocations.get? id = some a) :
        id = port.id ∧ a = ⟨faceId port, slot⟩ ∨
          id ≠ port.id ∧ state.allocations.get? id = some a := by
      rw [halloc] at h
      by_cases hid : id = port.id
      · subst hid
        rw [OrderedMap.get?_set_self] at h
        exact .inl ⟨rfl, (Option.some.inj h).symm⟩
      · rw [OrderedMap.get?_set_ne _ hid] at h
        exact .inr ⟨hid, h⟩
    -- A slot that was used before is not the new one.
    have hfresh (id) (a) (h : state.allocations.get? id = some a) (hface : a.face = faceId port) :
        a.slot ≠ slot := by
      rintro rfl
      exact hslot (hface ▸ hinv.occupied id a h)
    constructor
    · intro id id' a a' hne ha ha' hface
      rcases hget id a ha with ⟨rfl, rfl⟩ | ⟨-, ha⟩
      · rcases hget id' a' ha' with ⟨rfl, rfl⟩ | ⟨-, ha'⟩
        · exact absurd rfl hne
        · exact (hfresh id' a' ha' hface.symm).symm
      · rcases hget id' a' ha' with ⟨rfl, rfl⟩ | ⟨-, ha'⟩
        · exact hfresh id a ha hface
        · exact hinv.exclusive id id' a a' hne ha ha' hface
    · intro id a ha
      rw [hocc]
      rcases hget id a ha with ⟨rfl, rfl⟩ | ⟨-, ha⟩
      · rw [OrderedMap.get?_set_self]
        exact Finset.mem_insert_self _ _
      · have hmem := hinv.occupied id a ha
        by_cases hface : a.face = faceId port
        · rw [hface, OrderedMap.get?_set_self]
          exact Finset.mem_insert_of_mem (hface ▸ hmem)
        · rwa [OrderedMap.get?_set_ne _ hface]
    · intro id a ha
      rcases hget id a ha with ⟨rfl, rfl⟩ | ⟨-, ha⟩
      · exact ⟨port, hport, rfl⟩
      · exact hinv.faces id a ha
    · intro id a ha
      have hstate := hinv.keeps id a ha
      have hid : id ≠ port.id := by
        rintro rfl
        exact absurd (hnone.symm.trans hstate) nofun
      rw [halloc, OrderedMap.get?_set_ne _ hid, hstate]

theorem allocatePort_keeps {id : String} {a : Allocation K}
    (h : state.allocations.get? id = some a) (port : PortRequest K) :
    (allocatePort state port).allocations.get? id = some a := by
  rcases allocatePort_cases state port with ⟨-, heq⟩ | ⟨hnone, slot, -, halloc, -⟩
  · rwa [heq]
  · have hid : id ≠ port.id := by
      rintro rfl
      exact absurd (hnone.symm.trans h) nofun
    rw [halloc, OrderedMap.get?_set_ne _ hid, h]

theorem exists_get?_allocatePort (state : Allocating K) (port : PortRequest K) :
    ∃ a, (allocatePort state port).allocations.get? port.id = some a := by
  rcases allocatePort_cases state port with ⟨hsome, heq⟩ | ⟨-, slot, -, halloc, -⟩
  · rwa [heq]
  · exact ⟨⟨faceId port, slot⟩, by rw [halloc, OrderedMap.get?_set_self]⟩

/-- The loop keeps the slots of a face apart and gives every port one. -/
theorem foldl_allocatePort (ports : List (PortRequest K))
    (hports : ∀ port ∈ ports, requests.get? port.id = some port)
    (hinv : AllocatingInv requests kept state) :
    AllocatingInv requests kept (ports.foldl allocatePort state) ∧
      (∀ id a, state.allocations.get? id = some a →
        (ports.foldl allocatePort state).allocations.get? id = some a) ∧
      ∀ port ∈ ports, ∃ a, (ports.foldl allocatePort state).allocations.get? port.id = some a := by
  induction ports generalizing state with
  | nil => exact ⟨hinv, fun _ _ h => h, fun _ h => absurd h List.not_mem_nil⟩
  | cons port ports ih =>
    obtain ⟨hinv, hkeeps, hall⟩ := ih (fun p hp => hports p (List.mem_cons_of_mem _ hp))
      (allocatePort_inv hinv (hports port List.mem_cons_self))
    refine ⟨hinv, fun id a h => hkeeps id a (allocatePort_keeps h port), fun p hp => ?_⟩
    rcases List.mem_cons.mp hp with rfl | hp
    · obtain ⟨a, ha⟩ := exists_get?_allocatePort state p
      exact ⟨a, hkeeps _ a ha⟩
    · exact hall p hp

/-! ## The allocations of a call -/

/-- Requests are listed under their ids. -/
def Keyed (requests : OrderedMap String (PortRequest K)) : Prop :=
  ∀ id port, requests.get? id = some port → port.id = id

omit [LinearOrder K] in
theorem get?_of_mem_values (hkeyed : Keyed requests) {port : PortRequest K}
    (h : port ∈ requests.values) : requests.get? port.id = some port := by
  obtain ⟨⟨id, port⟩, hentry, rfl⟩ := List.mem_map.mp h
  have hget := OrderedMap.get?_eq_some_iff.mpr hentry
  rwa [hkeyed id port hget]

theorem get?_keepAllocations {id : String} {a : Allocation K} :
    (keepAllocations before requests).get? id = some a ↔ before.get? id = some a ∧
      ∃ port, requests.get? id = some port ∧ a.face = faceId port := by
  rw [keepAllocations, OrderedMap.get?_retain, Option.filter_eq_some_iff, Option.any_eq_true]
  simp only [decide_eq_true_eq]

/-- What a call makes of the allocations. -/
structure Updated (requests : OrderedMap String (PortRequest K)) (before after : Allocations K) :
    Prop where
  exclusive : Exclusive after
  faces : ∀ id a, after.get? id = some a →
    ∃ port, requests.get? id = some port ∧ a.face = faceId port
  covers : ∀ id port, requests.get? id = some port → ∃ a, after.get? id = some a
  keeps : ∀ id a port, before.get? id = some a → requests.get? id = some port →
    a.face = faceId port → after.get? id = some a

/-- The slots of allocations are noted as used. -/
theorem mem_occupied {allocations : List (Allocation K)} {a : Allocation K} (h : a ∈ allocations) :
    a.slot ∈ ((allocations.foldl occupySlot .empty).get? a.face).getD ∅ := by
  have hnoted : ∃ used, (allocations.foldl occupySlot .empty).get? a.face = some used ∧
      a.slot ∈ used :=
    OrderedMap.get?_foldl_update_of_mem Allocation.face
      (fun used a => insert a.slot (used.getD ∅)) (P := fun a used => a.slot ∈ used)
      (fun _ _ => Finset.mem_insert_self _ _) (fun _ _ _ h => Finset.mem_insert_of_mem h) h .empty
  obtain ⟨used, hused, hslot⟩ := hnoted
  rw [hused]
  exact hslot

theorem updateAllocations_updated (hkeyed : Keyed requests) (hbefore : Exclusive before) :
    Updated requests before (updateAllocations before requests) := by
  have hstart : AllocatingInv requests (keepAllocations before requests)
      ⟨keepAllocations before requests,
        (keepAllocations before requests).values.foldl occupySlot .empty, .empty⟩ := by
    refine ⟨fun id id' a a' hne ha ha' => ?_, fun id a ha => ?_, fun id a ha => ?_,
      fun _ _ ha => ha⟩
    · exact hbefore id id' a a' hne (get?_keepAllocations.mp ha).1 (get?_keepAllocations.mp ha').1
    · have hmem : a ∈ (keepAllocations before requests).values :=
        List.mem_map.mpr ⟨_, OrderedMap.get?_eq_some_iff.mp ha, rfl⟩
      exact mem_occupied hmem
    · exact (get?_keepAllocations.mp ha).2
  have hmem (port : PortRequest K) : port ∈ sortedRequests requests ↔ port ∈ requests.values :=
    List.mem_insertionSort _
  obtain ⟨hinv, -, hall⟩ := foldl_allocatePort (sortedRequests requests)
    (fun port hport => get?_of_mem_values hkeyed ((hmem port).mp hport)) hstart
  refine ⟨hinv.exclusive, hinv.faces, fun id port hport => ?_, fun id a port ha hport hface => ?_⟩
  · obtain rfl := hkeyed id port hport
    have hentry := OrderedMap.get?_eq_some_iff.mp hport
    exact hall port ((hmem port).mpr (List.mem_map.mpr ⟨_, hentry, rfl⟩))
  · exact hinv.keeps id a (get?_keepAllocations.mpr ⟨ha, port, hport, hface⟩)

omit [LinearOrder K] in
theorem pairwise_sortedRequests (requests : OrderedMap String (PortRequest K)) :
    (sortedRequests requests).Pairwise fun a b => utf16 a.id ≤ utf16 b.id := by
  have htotal : Std.Total fun a b : PortRequest K => utf16 a.id ≤ utf16 b.id :=
    ⟨fun a b => le_total _ _⟩
  have htrans : IsTrans (PortRequest K) fun a b => utf16 a.id ≤ utf16 b.id :=
    ⟨fun a b c => le_trans⟩
  exact List.pairwise_insertionSort _ _

/-- The allocations do not depend on the order of the requests. -/
theorem updateAllocations_congr {requests' : OrderedMap String (PortRequest K)}
    (hkeyed : Keyed requests) (h : ∀ id, requests.get? id = requests'.get? id) :
    updateAllocations before requests = updateAllocations before requests' := by
  have hkept : keepAllocations before requests = keepAllocations before requests' := by
    simp only [keepAllocations, h]
  have hvalues : requests.values.Perm requests'.values := (OrderedMap.perm_of_get?_eq h).map _
  have hsorted : sortedRequests requests = sortedRequests requests' := by
    refine List.Perm.eq_of_pairwise ?_ (pairwise_sortedRequests requests)
      (pairwise_sortedRequests requests') ?_
    · intro a b ha hb hab hba
      have hid := utf16_inj.mp (le_antisymm hab hba)
      have ha := get?_of_mem_values hkeyed ((List.mem_insertionSort _).mp ha)
      have hb := get?_of_mem_values hkeyed (hvalues.mem_iff.mpr ((List.mem_insertionSort _).mp hb))
      rw [hid] at ha
      exact Option.some.inj (ha.symm.trans hb)
    · exact (List.perm_insertionSort _ _).trans (hvalues.trans (List.perm_insertionSort _ _).symm)
  rw [updateAllocations, updateAllocations, hkept, hsorted]

end Procinsh.Space.IpcPorts
