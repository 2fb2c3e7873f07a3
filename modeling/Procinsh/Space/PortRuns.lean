import Mathlib.Algebra.Order.Ring.Rat
import Procinsh.Space.PortAllocations
import Procinsh.Space.PortPlaces

/-!
# Runs of the port allocator

A call draws the ports that are asked for where their slots are.  In a run of calls, each returns
one port for each resource of a process that is drawn, at a place of its own, and a port keeps its
slot as long as its face stays the same.
-/

namespace Procinsh.Space.IpcPorts

variable {K : Type} [Field K] [LinearOrder K] {input : SceneInput K} {before after : Allocations K}

/-! ## What a call returns -/

theorem keyed_requests (input : SceneInput K) : Keyed (requests input) := by
  intro id port hport
  have hasks : asksFor input id ≠ [] := fun h =>
    absurd ((get?_requests_eq_none_iff.mpr h).symm.trans hport) nofun
  obtain ⟨ask, hask⟩ := List.exists_mem_of_ne_nil _ hasks
  obtain rfl := (mem_asksFor.mp hask).2
  exact (requested_of_get? hport).id

/-- The level of a face is at least that of each slot on it. -/
theorem exists_faceLevel {id : String} {a : Allocation K} (h : after.get? id = some a) :
    ∃ level, (faceLevels after).get? a.face = some level ∧
      (slotPosition (K := K) a.slot).level ≤ level :=
  OrderedMap.get?_foldl_update_of_mem Allocation.face
    (fun level a => max (level.getD 0) (slotPosition (K := K) a.slot).level)
    (P := fun a level => (slotPosition (K := K) a.slot).level ≤ level)
    (fun _ _ => le_max_right _ _) (fun _ _ _ h => le_max_of_le_left h)
    (List.mem_map.mpr ⟨_, OrderedMap.get?_eq_some_iff.mp h, rfl⟩) .empty

theorem drawPort_id {levels : OrderedMap (Face K) ℕ} {port : PortRequest K} {p : IpcPort K}
    (h : drawPort input after levels port = some p) : p.id = port.id := by
  obtain ⟨allocation, -, h⟩ := Option.bind_eq_some_iff.mp h
  obtain ⟨owner, -, h⟩ := Option.bind_eq_some_iff.mp h
  obtain ⟨level, -, h⟩ := Option.bind_eq_some_iff.mp h
  rw [← Option.some.inj h]

/-- If every port can be drawn, the call returns the ports under their ids. -/
theorem exists_allocate (hdraw : ∀ id port, (requests input).get? id = some port →
      ∃ p, drawPort input (updateAllocations before (requests input))
        (faceLevels (updateAllocations before (requests input))) port = some p) :
    ∃ ports, allocate before input = some (ports, updateAllocations before (requests input)) ∧
      ∀ id, ports.get? id = ((requests input).get? id).bind
        (drawPort input (updateAllocations before (requests input))
          (faceLevels (updateAllocations before (requests input)))) := by
  have hkeyed := keyed_requests input
  generalize hafter : updateAllocations before (requests input) = after at hdraw ⊢
  have hall : ∀ port ∈ (requests input).values, ∃ p,
      drawPort input after (faceLevels after) port = pure p ∧
        drawPort input after (faceLevels after) port = some p := by
    intro port hport
    obtain ⟨p, hp⟩ := hdraw port.id port (get?_of_mem_values hkeyed hport)
    exact ⟨p, hp, hp⟩
  obtain ⟨ps, hps, hdrawn⟩ := exists_mapM_of_forall_mem hall
  have hids : (ps.map fun p => (p.id, p)).map Prod.fst = (requests input).entries.map Prod.fst := by
    have hsame := map_eq_map_of_forall₂ (hdrawn.imp fun _ _ h => (drawPort_id h).symm)
    have hkeys : (requests input).values.map PortRequest.id =
        (requests input).entries.map Prod.fst := by
      rw [OrderedMap.values, List.map_map]
      exact List.map_congr_left fun e he => hkeyed e.1 e.2 (OrderedMap.get?_eq_some_iff.mpr he)
    rw [List.map_map, ← hkeys, hsame]
    rfl
  refine ⟨_, by rw [allocate, hafter, hps]; rfl, fun id => Option.ext fun p => ?_⟩
  rw [OrderedMap.get?_eq_some_iff, OrderedMap.entries_ofList (hids ▸ (requests input).nodup),
    Option.bind_eq_some_iff, List.mem_map]
  constructor
  · rintro ⟨q, hq, hentry⟩
    obtain ⟨hid, rfl⟩ := Prod.mk.inj hentry
    obtain ⟨port, hport, hdraw⟩ := exists_left_of_forall₂ hdrawn hq
    exact ⟨port, by rw [← hid, drawPort_id hdraw, get?_of_mem_values hkeyed hport], hdraw⟩
  · rintro ⟨port, hport, hdraw⟩
    have hmem : port ∈ (requests input).values :=
      List.mem_map.mpr ⟨_, OrderedMap.get?_eq_some_iff.mp hport, rfl⟩
    obtain ⟨q, hq, hdraw'⟩ := exists_right_of_forall₂ hdrawn hmem
    obtain rfl := Option.some.inj (hdraw'.symm.trans hdraw)
    exact ⟨q, hq, by rw [drawPort_id hdraw, hkeyed id port hport]⟩

/-! ## Scenes -/

/-- Visible processes are placed, and the members of a network group are sockets of its process. -/
structure SceneInput.Valid (input : SceneInput K) : Prop where
  placed : ∀ id ∈ input.visible, ∃ node, input.nodes.get? id = some node
  members : ∀ group ∈ input.network.values, ∀ member ∈ group.members,
    member.endpoint.processId = group.endpoint.processId ∧
      member.endpoint.resource.kind = .socket

/-- The resources of processes that occur in a drawn relation or network group. -/
def drawnResources (input : SceneInput K) : Set (ProcessId × Scene.IpcIdentity) :=
  { x | ∃ e, Drawn input e ∧ (e.processId, e.resource) = x }

/-- The id of the port of a resource of a process; it does not depend on the FD number. -/
def portKey (x : ProcessId × Scene.IpcIdentity) : String := ipcOwnerKey ⟨x.1, 0, x.2⟩

/-- The face that the port of a resource is on. -/
def faceOf (x : ProcessId × Scene.IpcIdentity) (p : IpcPort K) : Face K :=
  ⟨key x.1, portHeight x.2.kind, p.normal⟩

/-- Every resource that is drawn has one port, where its slot is, and ports do not collide. -/
structure Drawing (input : SceneInput K) (ports : OrderedMap String (IpcPort K))
    (after : Allocations K) : Prop where
  one : Set.BijOn portKey (drawnResources input) { id | ∃ p, ports.get? id = some p }
  slot : ∀ x p, ports.get? (portKey x) = some p → ∃ slot owner,
    after.get? (portKey x) = some ⟨faceOf x p, slot⟩ ∧
    input.nodes.get? (key x.1) = some owner ∧
    p.position = portPosition owner.pos (portHeight x.2.kind) p.normal
      (slotPosition slot).u (slotPosition slot).v
  apart : ∀ x y p q, ports.get? (portKey x) = some p → ports.get? (portKey y) = some q →
    x ≠ y → x.1 = y.1 → p.position ≠ q.position
  disjoint : ∀ x y p q, ports.get? (portKey x) = some p → ports.get? (portKey y) = some q →
    x ≠ y → faceOf x p = faceOf y q → disc p ∩ disc q = ∅

omit [Field K] [LinearOrder K] in
theorem portKey_inj {x y : ProcessId × Scene.IpcIdentity} : portKey x = portKey y ↔ x = y := by
  rw [portKey, portKey, ipcOwnerKey_inj, Prod.ext_iff]

theorem ipcOwnerKey_eq_portKey (e : Scene.FdEndpoint) :
    ipcOwnerKey e = portKey (e.processId, e.resource) :=
  ipcOwnerKey_inj.mpr ⟨rfl, rfl⟩

variable [IsStrictOrderedRing K]

omit [Field K] [LinearOrder K] [IsStrictOrderedRing K] in
/-- The processes of ports that are drawn are placed. -/
theorem exists_owner (hvalid : input.Valid) {e : Scene.FdEndpoint} (h : Drawn input e) :
    ∃ owner, input.nodes.get? (key e.processId) = some owner := by
  cases h with
  | member hgroup hmember =>
    rw [(hvalid.members _ hgroup.mem _ hmember).1]
    exact hvalid.placed _ hgroup.owner
  | endpoint hrelation =>
    obtain ⟨a, ha, -⟩ := hrelation.owner
    exact ⟨a, ha⟩
  | peer _ _ hb => exact ⟨_, hb⟩

/-- Ports are on the roof or on a side. -/
theorem Requested.onHull (hvalid : input.Valid) {e : Scene.FdEndpoint} {port : PortRequest K}
    (h : Requested input e port) : OnHull port.height port.normal := by
  obtain ⟨ask, hask, hnormal⟩ := h.normal
  obtain ⟨hask, hkey⟩ := mem_asksFor.mp hask
  have hside (hside : IsSide ask.normal) : OnHull port.height port.normal := by
    refine .side (hnormal ▸ hside) ?_
    rw [h.height, portHeight]
    split
    · exact .inl rfl
    · exact .inr (by norm_num [decimal])
  cases (says_of_mem_asks hask).1 with
  | roof _ hroof hgroup hmember hendpoint =>
    refine .roof (hnormal.trans hroof) ?_
    have hsocket := (hvalid.members _ hgroup _ hmember).2
    rw [← hendpoint, (ipcOwnerKey_inj.mp hkey).2] at hsocket
    rw [h.height, portHeight, if_pos hsocket]
  | facing _ _ _ hfacing => exact hside (hfacing ▸ isSide_sideNormal _ _ _)
  | unobserved _ hunobserved => exact hside (.inl hunobserved)

/-- Where a port is drawn. -/
structure DrawnAt (input : SceneInput K) (after : Allocations K) (port : PortRequest K)
    (p : IpcPort K) (owner : PlacedProcess K) (slot level : ℕ) : Prop where
  allocation : after.get? port.id = some ⟨faceId port, slot⟩
  placed : input.nodes.get? port.process = some owner
  refined : (faceLevels after).get? (faceId port) = some level
  fine : (slotPosition (K := K) slot).level ≤ level
  normal : p.normal = port.normal
  position : p.position = portPosition owner.pos port.height port.normal
    (slotPosition slot).u (slotPosition slot).v
  radius : p.radiusScale = min 1 (portSpacing port.normal level * decimal 4 1 / ipcPortRadius)

/-- Every port that is asked for is drawn. -/
theorem exists_drawPort (hvalid : input.Valid) (hupdated : Updated (requests input) before after)
    {id : String} {port : PortRequest K} (hport : (requests input).get? id = some port) :
    ∃ p, drawPort input after (faceLevels after) port = some p ∧
      ∃ owner slot level, DrawnAt input after port p owner slot level := by
  obtain ⟨e, he, rfl⟩ := exists_get?_requests_iff.mp ⟨port, hport⟩
  have hrequested := requested_of_get? hport
  obtain ⟨owner, howner⟩ := exists_owner hvalid he
  rw [← hrequested.process] at howner
  obtain ⟨⟨face, slot⟩, ha⟩ := hupdated.covers _ _ hport
  obtain ⟨port', hport', rfl⟩ : ∃ port', (requests input).get? (ipcOwnerKey e) = some port' ∧
      face = faceId port' := hupdated.faces _ _ ha
  obtain rfl := Option.some.inj (hport.symm.trans hport')
  obtain ⟨level, hlevel, hfine⟩ : ∃ level, (faceLevels after).get? (faceId port) = some level ∧
      (slotPosition (K := K) slot).level ≤ level := exists_faceLevel ha
  rw [← hrequested.id] at ha
  refine ⟨⟨port.id, portPosition owner.pos port.height port.normal (slotPosition slot).u
    (slotPosition slot).v, port.normal, min 1 (portSpacing port.normal level * decimal 4 1 /
    ipcPortRadius), port.connections, port.networks⟩, ?_, owner, slot, level, ?_⟩
  · simp only [drawPort, ha, howner, Option.bind_eq_bind, Option.bind_some, hlevel]
    rfl
  · exact ⟨ha, howner, hlevel, hfine, rfl, rfl, rfl⟩

/-- Of the ports of a call, it is known whose they are and where they are drawn. -/
theorem exists_drawnAt {ports : OrderedMap String (IpcPort K)} (hvalid : input.Valid)
    (hupdated : Updated (requests input) before after)
    (hports : ∀ id, ports.get? id = ((requests input).get? id).bind
      (drawPort input after (faceLevels after)))
    {x : ProcessId × Scene.IpcIdentity} {p : IpcPort K} (hp : ports.get? (portKey x) = some p) :
    ∃ port owner slot level, (requests input).get? (portKey x) = some port ∧
      port.id = portKey x ∧ port.process = key x.1 ∧ OnHull port.height port.normal ∧
      faceId port = faceOf x p ∧ DrawnAt input after port p owner slot level := by
  obtain ⟨port, hport, hdraw⟩ := Option.bind_eq_some_iff.mp ((hports _).symm.trans hp)
  have hrequested : Requested input ⟨x.1, 0, x.2⟩ port := requested_of_get? hport
  obtain ⟨p', hdraw', owner, slot, level, hat⟩ := exists_drawPort hvalid hupdated hport
  obtain rfl := Option.some.inj (hdraw'.symm.trans hdraw)
  refine ⟨port, owner, slot, level, hport, hrequested.id, hrequested.process,
    hrequested.onHull hvalid, ?_, hat⟩
  rw [faceId, faceOf, hrequested.process, hrequested.height, hat.normal]

/-- A call draws what is to be drawn, without collisions. -/
theorem drawing_of_updated {ports : OrderedMap String (IpcPort K)} (hvalid : input.Valid)
    (hupdated : Updated (requests input) before after)
    (hports : ∀ id, ports.get? id = ((requests input).get? id).bind
      (drawPort input after (faceLevels after))) : Drawing input ports after := by
  constructor
  · refine ⟨?_, fun x _ y _ h => portKey_inj.mp h, ?_⟩
    · rintro x ⟨e, he, rfl⟩
      obtain ⟨port, hport⟩ := exists_get?_requests_iff.mpr ⟨e, he, rfl⟩
      obtain ⟨p, hp, -⟩ := exists_drawPort hvalid hupdated hport
      refine ⟨p, ?_⟩
      rw [← ipcOwnerKey_eq_portKey, hports, hport, Option.bind_some, hp]
    · rintro id ⟨p, hp⟩
      obtain ⟨port, hport, -⟩ := Option.bind_eq_some_iff.mp ((hports id).symm.trans hp)
      obtain ⟨e, he, rfl⟩ := exists_get?_requests_iff.mp ⟨port, hport⟩
      exact ⟨_, ⟨e, he, rfl⟩, (ipcOwnerKey_eq_portKey e).symm⟩
  · intro x p hp
    obtain ⟨port, owner, slot, level, -, hid, hprocess, -, hface, hat⟩ :=
      exists_drawnAt hvalid hupdated hports hp
    refine ⟨slot, owner, ?_, hprocess ▸ hat.placed, ?_⟩
    · rw [← hid, ← hface, hat.allocation]
    · have hheight : port.height = portHeight x.2.kind := congrArg Face.height hface
      rw [hat.position, hheight, hat.normal]
  · intro x y p q hp hq hne hprocess heq
    obtain ⟨port, owner, slot, level, -, hid, hkey, hhull, hface, hat⟩ :=
      exists_drawnAt hvalid hupdated hports hp
    obtain ⟨port', owner', slot', level', -, hid', hkey', hhull', hface', hat'⟩ :=
      exists_drawnAt hvalid hupdated hports hq
    have howner : owner = owner' := by
      have h := hat.placed
      rw [hkey, hprocess, ← hkey', hat'.placed] at h
      exact (Option.some.inj h).symm
    rw [hat.position, hat'.position, howner] at heq
    obtain ⟨hu, hv⟩ := abs_slotPosition_lt (K := K) slot
    obtain ⟨hu', hv'⟩ := abs_slotPosition_lt (K := K) slot'
    obtain ⟨hheight, hnormal, huu, hvv⟩ := portPosition_inj hhull hhull' hu hv hu' hv' heq
    have hslots : slot = slot' := by
      by_contra hslots
      exact slotPosition_apart hslots ⟨huu, hvv⟩
    refine hupdated.exclusive _ _ _ _ ?_ hat.allocation hat'.allocation ?_ hslots
    · rw [hid, hid']
      exact mt portKey_inj.mp hne
    · rw [faceId, faceId, hkey, hkey', hprocess, hheight, hnormal]
  · intro x y p q hp hq hne hfaces
    obtain ⟨port, owner, slot, level, -, hid, hkey, hhull, hface, hat⟩ :=
      exists_drawnAt hvalid hupdated hports hp
    obtain ⟨port', owner', slot', level', -, hid', hkey', hhull', hface', hat'⟩ :=
      exists_drawnAt hvalid hupdated hports hq
    have hsame : faceId port = faceId port' := hface.trans (hfaces.trans hface'.symm)
    obtain ⟨hprocess, hheight, hnormal⟩ : port.process = port'.process ∧
        port.height = port'.height ∧ port.normal = port'.normal := Face.mk.inj hsame
    have hids : port.id ≠ port'.id := by
      rw [hid, hid']
      exact mt portKey_inj.mp hne
    have hslots := hupdated.exclusive _ _ _ _ hids hat.allocation hat'.allocation hsame
    obtain rfl : owner = owner' := by
      have h := hat.placed
      rw [hprocess, hat'.placed] at h
      exact (Option.some.inj h).symm
    obtain rfl : level = level' := by
      have h := hat.refined
      rw [hsame, hat'.refined] at h
      exact (Option.some.inj h).symm
    refine disc_inter_disc (portSpacing_pos hhull level) hat.radius ?_ ?_
    · rw [hat'.radius, hnormal]
    · rw [hat.position, hat'.position, ← hheight, ← hnormal]
      exact portPosition_distance hhull (slotPosition_distance hslots hat.fine hat'.fine)

/-! ## Runs -/

/-- A call on a valid scene returns ports, and allocations that keep the slots of a face apart. -/
theorem exists_allocate_of_valid (hvalid : input.Valid) (hbefore : Exclusive before) :
    ∃ ports after, after = updateAllocations before (requests input) ∧
      allocate before input = some (ports, after) ∧ Updated (requests input) before after ∧
      ∀ id, ports.get? id = ((requests input).get? id).bind
        (drawPort input after (faceLevels after)) := by
  have hupdated := updateAllocations_updated (keyed_requests input) hbefore
  obtain ⟨ports, hallocate, hports⟩ := exists_allocate fun id port hport => by
    obtain ⟨p, hp, -⟩ := exists_drawPort hvalid hupdated hport
    exact ⟨p, hp⟩
  exact ⟨ports, _, rfl, hallocate, hupdated, hports⟩

/-- A run on valid scenes keeps the slots of a face apart. -/
theorem exists_runAllocator {inputs : List (SceneInput K)}
    (hinputs : ∀ input ∈ inputs, input.Valid) :
    ∃ before, runAllocator inputs = some before ∧ Exclusive before := by
  have hrun : ∀ (inputs : List (SceneInput K)) (state : Allocations K),
      (∀ input ∈ inputs, input.Valid) → Exclusive state → ∃ before,
        inputs.foldlM (fun allocations input => (allocate allocations input).map Prod.snd) state =
          some before ∧ Exclusive before := by
    intro inputs
    induction inputs with
    | nil => exact fun state _ hstate => ⟨state, rfl, hstate⟩
    | cons input inputs ih =>
      intro state hinputs hstate
      obtain ⟨ports, after, -, hallocate, hupdated, -⟩ :=
        exists_allocate_of_valid (hinputs input List.mem_cons_self) hstate
      obtain ⟨before, hbefore, hexclusive⟩ :=
        ih after (fun i hi => hinputs i (List.mem_cons_of_mem _ hi)) hupdated.exclusive
      refine ⟨before, ?_, hexclusive⟩
      rw [List.foldlM_cons, hallocate]
      exact hbefore
  refine hrun inputs .empty hinputs fun id _ a _ _ ha => ?_
  rw [OrderedMap.get?_empty] at ha
  cases ha

/-- In every run, a call draws each resource of a process that takes part in a drawn relation or
network group at one port, ports do not collide, the next call keeps the slots of ports whose face
is the same, and the order of the relations does not count. -/
theorem runAllocator_stable {inputs : List (SceneInput K)} {scene next : SceneInput K}
    (hinputs : ∀ input ∈ inputs, input.Valid) (hscene : scene.Valid) (hnext : next.Valid) :
    ∃ before ports middle ports' after, runAllocator inputs = some before ∧
      allocate before scene = some (ports, middle) ∧ Drawing scene ports middle ∧
      allocate middle next = some (ports', after) ∧ Drawing next ports' after ∧
      (∀ x p p', ports.get? (portKey x) = some p → ports'.get? (portKey x) = some p' →
        faceOf x p = faceOf x p' → ∃ slot,
          middle.get? (portKey x) = some ⟨faceOf x p, slot⟩ ∧
          after.get? (portKey x) = some ⟨faceOf x p', slot⟩) ∧
      ∀ relations, relations.Perm scene.fdRelations → ∃ reordered,
        allocate before { scene with fdRelations := relations } = some (reordered, middle) ∧
        ∀ id, reordered.get? id = ports.get? id := by
  obtain ⟨before, hrun, hbefore⟩ := exists_runAllocator hinputs
  obtain ⟨ports, middle, heq, hfirst, hmiddle, hports⟩ := exists_allocate_of_valid hscene hbefore
  obtain ⟨ports', after, -, hsecond, hafter, hports'⟩ :=
    exists_allocate_of_valid hnext hmiddle.exclusive
  have hdrawing := drawing_of_updated hscene hmiddle hports
  have hdrawing' := drawing_of_updated hnext hafter hports'
  refine ⟨before, ports, middle, ports', after, hrun, hfirst, hdrawing, hsecond, hdrawing',
    fun x p p' hp hp' hface => ?_, fun relations hperm => ?_⟩
  · obtain ⟨slot, owner, hslot, -, -⟩ := hdrawing.slot x p hp
    obtain ⟨port, -, -, -, hport, -, -, -, hface', -⟩ := exists_drawnAt hnext hafter hports' hp'
    have hkept := hafter.keeps _ _ port hslot hport (hface.trans hface'.symm)
    exact ⟨slot, hslot, hface ▸ hkept⟩
  · have hasks : (asks { scene with fdRelations := relations }).Perm (asks scene) :=
      List.Perm.append_left _ (hperm.flatMap_right _)
    have hrequests := get?_requests_of_perm hasks
    have hvalid : { scene with fdRelations := relations }.Valid := ⟨hscene.placed, hscene.members⟩
    obtain ⟨reordered, middle', heq', hcall, -, hreordered⟩ :=
      exists_allocate_of_valid hvalid hbefore
    have hmiddles : middle' = middle := by
      rw [heq, heq', updateAllocations_congr (keyed_requests _) hrequests]
    subst hmiddles
    refine ⟨reordered, hcall, fun id => ?_⟩
    rw [hreordered, hports, hrequests]
    rfl

/-- A socket of a process. -/
def socketOf (pid fd : ℤ) (inode : String) : Scene.FdEndpoint :=
  ⟨⟨pid, 1, none⟩, fd, ⟨.socket, 0, 8, inode⟩⟩

/-- Two processes with a connection between them, one of which has a network destination. -/
def connectedScene : SceneInput ℚ where
  nodes := (OrderedMap.empty.set (key ⟨1, 1, none⟩) ⟨⟨1, 1, none⟩, ⟨0, 0, 0⟩⟩).set
    (key ⟨2, 1, none⟩) ⟨⟨2, 1, none⟩, ⟨4, 1, 0⟩⟩
  visible := {key ⟨1, 1, none⟩, key ⟨2, 1, none⟩}
  network := OrderedMap.empty.set "remote" ⟨"remote", socketOf 1 4 "11",
    [⟨"b", socketOf 1 4 "11", none, none, false, false⟩]⟩
  networkPositions := {"remote"}
  fdRelations := [⟨"a", socketOf 1 3 "10", some (socketOf 2 3 "20"), none, false, false⟩,
    ⟨"b", socketOf 1 4 "11", none, none, false, false⟩]

theorem connectedScene_valid : connectedScene.Valid := by
  constructor
  · intro id hid
    by_cases hsecond : id = key ⟨2, 1, none⟩
    · rw [hsecond]
      exact ⟨_, OrderedMap.get?_set_self _ _ _⟩
    · obtain rfl : id = key ⟨1, 1, none⟩ := by
        simpa [connectedScene, hsecond] using hid
      exact ⟨_, (OrderedMap.get?_set_ne _ hsecond _).trans (OrderedMap.get?_set_self _ _ _)⟩
  · intro group hgroup member hmember
    obtain rfl : group = ⟨"remote", socketOf 1 4 "11",
        [⟨"b", socketOf 1 4 "11", none, none, false, false⟩]⟩ := List.mem_singleton.mp hgroup
    obtain rfl := List.mem_singleton.mp hmember
    exact ⟨rfl, rfl⟩

theorem runAllocator_stable_connected :
    ∃ before ports middle ports' after, runAllocator [connectedScene] = some before ∧
      allocate before connectedScene = some (ports, middle) ∧
      Drawing connectedScene ports middle ∧
      allocate middle connectedScene = some (ports', after) ∧
      Drawing connectedScene ports' after ∧
      (∀ x p p', ports.get? (portKey x) = some p → ports'.get? (portKey x) = some p' →
        faceOf x p = faceOf x p' → ∃ slot,
          middle.get? (portKey x) = some ⟨faceOf x p, slot⟩ ∧
          after.get? (portKey x) = some ⟨faceOf x p', slot⟩) ∧
      ∀ relations, relations.Perm connectedScene.fdRelations → ∃ reordered,
        allocate before { connectedScene with fdRelations := relations } =
          some (reordered, middle) ∧ ∀ id, reordered.get? id = ports.get? id :=
  runAllocator_stable (fun _ h => List.mem_singleton.mp h ▸ connectedScene_valid)
    connectedScene_valid connectedScene_valid

end Procinsh.Space.IpcPorts
