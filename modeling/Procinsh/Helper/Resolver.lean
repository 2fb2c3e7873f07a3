import Procinsh.Foundation.Lists
import Procinsh.Foundation.OrderedMap
import Procinsh.Foundation.Transition
import Procinsh.Ipc.Codec

/-!
# The reverse lookup of addresses

`ReverseDnsResolver` (`src/privileged_helper/system/resolver.rs`): a cache of host names, a bounded
queue of addresses, and the worker threads that resolve them.  A lookup holds the lock of the cache
while it queues an address and while it marks it as pending; a worker takes an address from the
queue without that lock, so the two halves of a lookup are steps of their own.  The readings of the
clock and the answer of the system are inputs of the steps; any readings are allowed.
-/

namespace Procinsh

open Ipc

/-- What the cache keeps of an address. -/
structure ResolverEntry where
  name : Option String
  expires : ℕ
  pending : Bool
  deriving DecidableEq

/-- A worker thread: it waits for an address, or resolves one. -/
inductive ResolverWorker
  | idle
  | resolving (ip : IpAddr)
  deriving DecidableEq

/-- The address that a worker resolves. -/
def ResolverWorker.address : ResolverWorker → Option IpAddr
  | idle => none
  | resolving ip => some ip

/-- The resolver with its cache, its queue and its workers. -/
structure ReverseDnsResolver where
  cache : OrderedMap IpAddr ResolverEntry
  queue : List IpAddr
  workers : List ResolverWorker
  /-- The address that has been queued by the lookup that holds the lock. -/
  marking : Option IpAddr
  deriving DecidableEq

namespace ReverseDnsResolver

/-- The capacity of the queue, and the number of entries from which on nothing is added. -/
def limit : ℕ := 4096

/-- The number of seconds for which a result is kept. -/
def ttl (name : Option String) : ℕ := if name.isSome then 300 else 60

/-- A resolver with four workers. -/
def new : ReverseDnsResolver := ⟨.empty, [], List.replicate 4 .idle, none⟩

/-- `try_send`: queues an address, unless the queue is full. -/
def trySend (r : ReverseDnsResolver) (ip : IpAddr) : Option ReverseDnsResolver :=
  if r.queue.length < limit then some { r with queue := r.queue ++ [ip], marking := some ip }
  else none

/-- The part of a lookup behind the cached entry: expired entries are dropped, then the address is
queued.  The clock is read anew for each entry. -/
def enqueue (r : ReverseDnsResolver) (ip : IpAddr) (times : IpAddr → ℕ) : ReverseDnsResolver :=
  let r := { r with cache := r.cache.retain fun k e => e.pending || times k < e.expires }
  if limit ≤ r.cache.size then r else (r.trySend ip).getD r

/-- A lookup up to the marking: what it returns, and the resolver with the address queued. -/
def lookup (r : ReverseDnsResolver) (ip : IpAddr) (now : ℕ) (times : IpAddr → ℕ) :
    Option String × ReverseDnsResolver :=
  match r.cache.get? ip with
  | some entry =>
    if entry.pending || now < entry.expires then (entry.name, r) else (none, r.enqueue ip times)
  | none => (none, r.enqueue ip times)

/-- The rest of a lookup that has queued an address: its entry is marked as pending. -/
def mark (r : ReverseDnsResolver) (ip : IpAddr) (now : ℕ) : ReverseDnsResolver :=
  { r with cache := r.cache.set ip ⟨none, now, true⟩, marking := none }

/-- A worker stores what it has found. -/
def store (r : ReverseDnsResolver) (worker : ℕ) (ip : IpAddr) (name : Option String) (now : ℕ) :
    ReverseDnsResolver :=
  { r with
    cache := r.cache.set ip ⟨name, now + ttl name, false⟩
    workers := r.workers.set worker .idle }

end ReverseDnsResolver

/-- The steps of the threads. -/
inductive ResolverAction
  /-- A lookup takes the lock; it keeps the lock if it has queued the address. -/
  | lookup (ip : IpAddr) (now : ℕ) (times : IpAddr → ℕ)
  /-- The lookup that holds the lock marks its address and releases the lock. -/
  | mark (now : ℕ)
  /-- A waiting worker receives the first address of the queue. -/
  | receive (worker : ℕ)
  /-- A worker takes the lock and stores the name that the system has answered, if any. -/
  | complete (worker : ℕ) (name : Option String) (now : ℕ)

namespace ReverseDnsResolver

/-- One step; lookups and completions wait for the lock, a receiving worker does not. -/
def step (r : ReverseDnsResolver) : ResolverAction → Option ReverseDnsResolver
  | .lookup ip now times => if r.marking = none then some (r.lookup ip now times).2 else none
  | .mark now => r.marking.map fun ip => r.mark ip now
  | .receive worker =>
    match r.workers[worker]?, r.queue with
    | some .idle, ip :: queue =>
      some { r with queue, workers := r.workers.set worker (.resolving ip) }
    | _, _ => none
  | .complete worker name now =>
    match r.workers[worker]?, r.marking with
    | some (.resolving ip), none => some (r.store worker ip name now)
    | _, _ => none

/-- The addresses that are queued or being resolved. -/
def outstanding (r : ReverseDnsResolver) : List IpAddr :=
  r.queue ++ r.workers.filterMap ResolverWorker.address

/-- The entry of an address is marked as pending. -/
def Pending (r : ReverseDnsResolver) (ip : IpAddr) : Prop :=
  ∃ entry, r.cache.get? ip = some entry ∧ entry.pending = true

/-! ## What a step does -/

/-- A lookup leaves the resolver alone, or only drops expired entries, or also queues an address
that has no entry then. -/
theorem lookup_cases (r : ReverseDnsResolver) (ip : IpAddr) (now : ℕ) (times : IpAddr → ℕ) :
    (r.lookup ip now times).2 = r ∨
    ∃ cache, cache = r.cache.retain (fun k e => e.pending || decide (times k < e.expires)) ∧
      ¬ r.Pending ip ∧
      ((r.lookup ip now times).2 = { r with cache } ∨
        cache.size < limit ∧
          (r.lookup ip now times).2 =
            { r with cache, queue := r.queue ++ [ip], marking := some ip }) := by
  have henqueue : ∀ cache,
      cache = r.cache.retain (fun k e => e.pending || decide (times k < e.expires)) →
      (r.enqueue ip times = { r with cache } ∨
        cache.size < limit ∧ r.enqueue ip times =
          { r with cache, queue := r.queue ++ [ip], marking := some ip }) := by
    rintro cache rfl
    rw [enqueue]
    dsimp only
    split
    · exact Or.inl rfl
    · next hsize =>
      rw [trySend]
      split
      · exact Or.inr ⟨not_le.mp hsize, rfl⟩
      · exact Or.inl rfl
  rw [lookup]
  split
  · next entry hentry =>
    split
    · exact Or.inl rfl
    · next hexpired =>
      refine Or.inr ⟨_, rfl, ?_, henqueue _ rfl⟩
      rintro ⟨other, hother, hpending⟩
      obtain rfl := Option.some.inj (hentry.symm.trans hother)
      simp [hpending] at hexpired
  · next hnone =>
    refine Or.inr ⟨_, rfl, ?_, henqueue _ rfl⟩
    rintro ⟨other, hother, -⟩
    rw [hnone] at hother
    cases hother

/-- What happens to the cache, the outstanding addresses and the marked address in a step. -/
theorem step_cases {r t : ReverseDnsResolver} {action : ResolverAction}
    (h : r.step action = some t) :
    (t = r) ∨
    (∃ keep, r.marking = none ∧ t = { r with cache := r.cache.retain keep } ∧
      ∀ ip entry, entry.pending = true → keep ip entry = true) ∨
    (∃ keep ip, r.marking = none ∧ ¬ r.Pending ip ∧ (r.cache.retain keep).size < limit ∧
      t = ⟨r.cache.retain keep, r.queue ++ [ip], r.workers, some ip⟩ ∧
      ∀ ip entry, entry.pending = true → keep ip entry = true) ∨
    (∃ ip now, action = .mark now ∧ r.marking = some ip ∧ t = r.mark ip now) ∨
    (∃ worker ip queue, r.workers[worker]? = some .idle ∧ r.queue = ip :: queue ∧
      t = { r with queue, workers := r.workers.set worker (.resolving ip) }) ∨
    (∃ worker ip name now, action = .complete worker name now ∧
      r.workers[worker]? = some (.resolving ip) ∧ r.marking = none ∧
      t = r.store worker ip name now) := by
  cases action with
  | lookup ip now times =>
    rw [step] at h
    split at h
    · next hfree =>
      obtain rfl := Option.some.inj h
      rcases r.lookup_cases ip now times with hsame | ⟨cache, rfl, hpending, hdrop | ⟨hsize, hsent⟩⟩
      · exact Or.inl hsame
      · refine Or.inr (Or.inl ⟨_, hfree, hdrop, fun k e he => ?_⟩)
        simp [he]
      · refine Or.inr (Or.inr (Or.inl ⟨_, ip, hfree, hpending, hsize, hsent, fun k e he => ?_⟩))
        simp [he]
    · cases h
  | mark now =>
    obtain ⟨ip, hip, rfl⟩ := Option.map_eq_some_iff.mp h
    exact Or.inr (Or.inr (Or.inr (Or.inl ⟨ip, now, rfl, hip, rfl⟩)))
  | receive worker =>
    rw [step] at h
    split at h
    · next ip queue hworker hqueue =>
      obtain rfl := Option.some.inj h
      exact Or.inr (Or.inr (Or.inr (Or.inr (Or.inl ⟨worker, ip, queue, hworker, hqueue, rfl⟩))))
    · cases h
  | complete worker name now =>
    rw [step] at h
    split at h
    · next ip hworker hfree =>
      obtain rfl := Option.some.inj h
      exact Or.inr (Or.inr (Or.inr (Or.inr (Or.inr
        ⟨worker, ip, name, now, rfl, hworker, hfree, rfl⟩))))
    · cases h

/-! ## The invariant -/

/-- The cache is bounded, no address is outstanding twice, and the outstanding addresses are those
that are pending, and the one that is about to be marked. -/
structure Consistent (r : ReverseDnsResolver) : Prop where
  bounded : r.cache.size ≤ limit
  room : r.marking ≠ none → r.cache.size < limit
  nodup : r.outstanding.Nodup
  mem_outstanding_iff : ∀ ip, ip ∈ r.outstanding ↔ r.Pending ip ∨ r.marking = some ip

theorem consistent_new : new.Consistent where
  bounded := Nat.zero_le _
  room := fun h => absurd rfl h
  nodup := List.nodup_nil
  mem_outstanding_iff := by
    intro ip
    refine iff_of_false List.not_mem_nil ?_
    rintro (⟨entry, hentry, -⟩ | hmarking)
    · cases hentry
    · cases hmarking

/-- Dropping entries that are not pending keeps what is pending. -/
theorem pending_retain {r t : ReverseDnsResolver} {keep : IpAddr → ResolverEntry → Bool}
    (hkeep : ∀ ip entry, entry.pending = true → keep ip entry = true)
    (ht : t.cache = r.cache.retain keep) (ip : IpAddr) : t.Pending ip ↔ r.Pending ip := by
  rw [Pending, Pending, ht, OrderedMap.get?_retain]
  constructor
  · rintro ⟨entry, hentry, hpending⟩
    exact ⟨entry, (Option.filter_eq_some_iff.mp hentry).1, hpending⟩
  · rintro ⟨entry, hentry, hpending⟩
    exact ⟨entry, Option.filter_eq_some_iff.mpr ⟨hentry, hkeep ip entry hpending⟩, hpending⟩

/-- After a write an address is pending if the entry says so; the others are as before. -/
theorem pending_set {r t : ReverseDnsResolver} (ip : IpAddr) (entry : ResolverEntry)
    (ht : t.cache = r.cache.set ip entry) (other : IpAddr) :
    t.Pending other ↔ (other = ip ∧ entry.pending = true) ∨ (other ≠ ip ∧ r.Pending other) := by
  rw [Pending, Pending, ht]
  by_cases h : other = ip
  · subst h
    simp
  · rw [OrderedMap.get?_set_ne _ h]
    simp [h]

/-- A worker that changes its address changes the outstanding addresses by it. -/
theorem perm_outstanding {r t : ReverseDnsResolver} {worker : ℕ} {w : ResolverWorker}
    (w' : ResolverWorker) (hw : r.workers[worker]? = some w)
    (ht : t.workers = r.workers.set worker w') :
    (w.address.toList ++ t.workers.filterMap ResolverWorker.address).Perm
      (w'.address.toList ++ r.workers.filterMap ResolverWorker.address) := by
  rw [ht]
  exact perm_filterMap_set w' hw

theorem Consistent.step {r t : ReverseDnsResolver} {action : ResolverAction} (hr : r.Consistent)
    (h : r.step action = some t) : t.Consistent := by
  rcases step_cases h with rfl | ⟨keep, hfree, rfl, hkeep⟩ |
    ⟨keep, ip, hfree, hpending, hsize, rfl, hkeep⟩ | ⟨ip, now, -, hmarking, rfl⟩ |
    ⟨worker, ip, queue, hworker, hqueue, rfl⟩ | ⟨worker, ip, name, now, -, hworker, hfree, rfl⟩
  · exact hr
  · refine ⟨(r.cache.size_retain_le keep).trans hr.bounded, fun h => absurd hfree h, hr.nodup, ?_⟩
    intro ip
    have hpending : Pending { r with cache := r.cache.retain keep } ip ↔ r.Pending ip :=
      pending_retain hkeep rfl ip
    rw [hpending]
    exact hr.mem_outstanding_iff ip
  · have hnew : ip ∉ r.outstanding := by
      rw [hr.mem_outstanding_iff, hfree]
      simpa using hpending
    have hperm : (ReverseDnsResolver.outstanding
        ⟨r.cache.retain keep, r.queue ++ [ip], r.workers, some ip⟩).Perm (ip :: r.outstanding) := by
      rw [outstanding, outstanding, List.append_assoc]
      exact List.perm_middle
    refine ⟨hsize.le, fun _ => hsize, ?_, ?_⟩
    · rw [hperm.nodup_iff]
      exact List.nodup_cons.mpr ⟨hnew, hr.nodup⟩
    · intro other
      have hkept : Pending ⟨r.cache.retain keep, r.queue ++ [ip], r.workers, some ip⟩ other ↔
          r.Pending other := pending_retain hkeep rfl other
      rw [hperm.mem_iff, List.mem_cons, hr.mem_outstanding_iff, hfree, hkept, Option.some.injEq,
        or_comm, eq_comm (a := other)]
      simp
  · refine ⟨?_, fun h => absurd rfl h, hr.nodup, ?_⟩
    · have hroom : r.cache.size < limit := hr.room (by simp [hmarking])
      cases hget : r.cache.get? ip with
      | none =>
        have hset := OrderedMap.size_set_of_get?_eq_none hget ⟨none, now, true⟩
        exact hset.le.trans hroom
      | some entry =>
        have hset := OrderedMap.size_set_of_get?_eq_some hget ⟨none, now, true⟩
        exact hset.le.trans hroom.le
    · intro other
      have hset : (r.mark ip now).Pending other ↔ _ := pending_set ip ⟨none, now, true⟩ rfl other
      change other ∈ r.outstanding ↔ _ ∨ none = some other
      rw [hr.mem_outstanding_iff, hset, hmarking, Option.some.injEq]
      by_cases hother : other = ip
      · simp [hother]
      · simp [hother, Ne.symm hother]
  · have hperm := perm_outstanding (t := { r with
      queue, workers := r.workers.set worker (.resolving ip) }) (.resolving ip) hworker rfl
    have hout : (ReverseDnsResolver.outstanding
        { r with queue, workers := r.workers.set worker (.resolving ip) }).Perm r.outstanding := by
      rw [outstanding, outstanding, hqueue]
      exact (hperm.append_left queue).trans List.perm_middle
    refine ⟨hr.bounded, hr.room, hout.nodup_iff.mpr hr.nodup, fun other => ?_⟩
    rw [hout.mem_iff]
    exact hr.mem_outstanding_iff other
  · have hout : (ip :: (r.store worker ip name now).outstanding).Perm r.outstanding := by
      have hperm := perm_outstanding (t := r.store worker ip name now) .idle hworker rfl
      rw [outstanding, outstanding]
      exact List.perm_middle.symm.trans (hperm.append_left r.queue)
    obtain ⟨hip, hnodup⟩ := List.nodup_cons.mp (hout.nodup_iff.mpr hr.nodup)
    have hpending : r.Pending ip := by
      have hmem : ip ∈ r.outstanding := hout.mem_iff.mp List.mem_cons_self
      rw [hr.mem_outstanding_iff, hfree] at hmem
      simpa using hmem
    refine ⟨?_, fun h => absurd hfree h, hnodup, fun other => ?_⟩
    · obtain ⟨entry, hentry, -⟩ := hpending
      have hset := OrderedMap.size_set_of_get?_eq_some hentry ⟨name, now + ttl name, false⟩
      exact hset.le.trans hr.bounded
    · have hmem := hr.mem_outstanding_iff other
      rw [← hout.mem_iff, List.mem_cons, hfree] at hmem
      have hset : (r.store worker ip name now).Pending other ↔ _ :=
        pending_set ip ⟨name, now + ttl name, false⟩ rfl other
      change _ ↔ _ ∨ r.marking = some other
      rw [hset, hfree]
      by_cases hother : other = ip
      · subst hother
        simpa using hip
      · simpa [hother] using hmem

/-! ## What is returned -/

/-- A write of the cache. -/
inductive CacheWrite
  | marked
  | resolved (name : Option String)
  deriving DecidableEq

/-- What a step writes to the cache. -/
def writes (r : ReverseDnsResolver) : ResolverAction → List (IpAddr × CacheWrite)
  | .mark _ => (r.marking.map fun ip => (ip, .marked)).toList
  | .complete worker name _ =>
    ((r.workers[worker]?.bind ResolverWorker.address).map fun ip => (ip, .resolved name)).toList
  | .lookup _ _ _ => []
  | .receive _ => []

/-- What a run writes to the cache. -/
def history : ReverseDnsResolver → List ResolverAction → List (IpAddr × CacheWrite)
  | _, [] => []
  | r, action :: actions =>
    r.writes action ++ ((r.step action).map fun t => history t actions).getD []

/-- The last write for an address. -/
def lastWrite (ip : IpAddr) (ws : List (IpAddr × CacheWrite)) : Option CacheWrite :=
  (ws.filter fun w => w.1 = ip).getLast?.map Prod.snd

theorem history_concat {r t : ReverseDnsResolver} {actions : List ResolverAction}
    {action : ResolverAction} (h : run step r actions = some t) :
    history r (actions ++ [action]) = history r actions ++ t.writes action := by
  induction actions generalizing r with
  | nil =>
    obtain rfl := Option.some.inj h
    cases haction : r.step action with
    | none => simp [history, haction]
    | some u => simp [history, haction]
  | cons a actions ih =>
    obtain ⟨u, hu, hrun⟩ := run_cons_eq_some.mp h
    simp only [List.cons_append, history, hu, Option.map_some, Option.getD_some, ih hrun,
      List.append_assoc]

theorem lastWrite_append_self (ip : IpAddr) (w : CacheWrite) (ws : List (IpAddr × CacheWrite)) :
    lastWrite ip (ws ++ [(ip, w)]) = some w := by
  simp [lastWrite, List.filter_append]

theorem lastWrite_append_ne {ip other : IpAddr} (h : other ≠ ip) (w : CacheWrite)
    (ws : List (IpAddr × CacheWrite)) : lastWrite other (ws ++ [(ip, w)]) = lastWrite other ws := by
  simp [lastWrite, List.filter_append, Ne.symm h]

/-- What an entry says about the last write of its address. -/
def entryWrite (entry : ResolverEntry) : CacheWrite :=
  if entry.pending then .marked else .resolved entry.name

/-- Every entry is what was written last, and a pending one has no name. -/
def Recorded (r : ReverseDnsResolver) (ws : List (IpAddr × CacheWrite)) : Prop :=
  ∀ ip entry, r.cache.get? ip = some entry →
    lastWrite ip ws = some (entryWrite entry) ∧ (entry.pending = true → entry.name = none)

theorem Recorded.retain {r t : ReverseDnsResolver} {ws : List (IpAddr × CacheWrite)}
    {keep : IpAddr → ResolverEntry → Bool} (hr : r.Recorded ws)
    (ht : t.cache = r.cache.retain keep) : t.Recorded ws := by
  intro ip entry hentry
  rw [ht, OrderedMap.get?_retain] at hentry
  exact hr ip entry (Option.filter_eq_some_iff.mp hentry).1

theorem Recorded.set {r t : ReverseDnsResolver} {ws : List (IpAddr × CacheWrite)} {ip : IpAddr}
    (entry : ResolverEntry) (hr : r.Recorded ws) (ht : t.cache = r.cache.set ip entry)
    (hname : entry.pending = true → entry.name = none) :
    t.Recorded (ws ++ [(ip, entryWrite entry)]) := by
  intro other e he
  rw [ht] at he
  by_cases hother : other = ip
  · subst hother
    rw [OrderedMap.get?_set_self] at he
    obtain rfl := Option.some.inj he
    exact ⟨lastWrite_append_self other _ ws, hname⟩
  · rw [OrderedMap.get?_set_ne _ hother] at he
    rw [lastWrite_append_ne hother]
    exact hr other e he

theorem Recorded.step {r t : ReverseDnsResolver} {ws : List (IpAddr × CacheWrite)}
    {action : ResolverAction} (hr : r.Recorded ws) (h : r.step action = some t) :
    t.Recorded (ws ++ r.writes action) := by
  cases action with
  | lookup ip now times =>
    rw [writes, List.append_nil]
    rcases step_cases h with rfl | ⟨keep, -, rfl, -⟩ | ⟨keep, ip, -, -, -, rfl, -⟩ |
      ⟨_, _, hcases, -⟩ | ⟨worker, ip, queue, -, -, rfl⟩ | ⟨_, _, _, _, hcases, -⟩
    · exact hr
    · exact hr.retain rfl
    · exact hr.retain rfl
    · cases hcases
    · exact hr
    · cases hcases
  | mark now =>
    obtain ⟨ip, hip, rfl⟩ := Option.map_eq_some_iff.mp h
    rw [writes, hip]
    exact hr.set ⟨none, now, true⟩ rfl fun _ => rfl
  | receive worker =>
    rw [writes, List.append_nil]
    rw [ReverseDnsResolver.step] at h
    split at h
    · obtain rfl := Option.some.inj h
      exact hr
    · cases h
  | complete worker name now =>
    rw [ReverseDnsResolver.step] at h
    split at h
    · next ip hworker _ =>
      obtain rfl := Option.some.inj h
      rw [writes, hworker]
      exact hr.set ⟨name, now + ttl name, false⟩ rfl fun hp => absurd hp (by simp)
    · cases h

theorem recorded_run {actions : List ResolverAction} {r : ReverseDnsResolver}
    (h : run step new actions = some r) : r.Recorded (history new actions) := by
  refine run_induction (P := fun actions r => r.Recorded (history new actions)) ?_ ?_ h
  · intro ip entry hentry
    cases hentry
  · intro actions action s t hrun hs hstep
    rw [history_concat hrun]
    exact hs.step hstep

/-- A name that is returned is that of an entry that is not pending. -/
theorem lookup_eq_some {r : ReverseDnsResolver} {ip : IpAddr} {now : ℕ} {times : IpAddr → ℕ}
    {name : String} (h : (r.lookup ip now times).1 = some name) :
    ∃ entry, r.cache.get? ip = some entry ∧ entry.name = some name := by
  rw [lookup] at h
  split at h
  · next entry hentry =>
    split at h
    · exact ⟨entry, hentry, h⟩
    · cases h
  · cases h

/-- In every run the cache is bounded, an address is outstanding once at most, and it is outstanding
exactly if it is pending, or just queued by the lookup that still holds the lock; a name that a
lookup returns is what a worker stored last for that address. -/
theorem run_outstanding {actions : List ResolverAction} {r : ReverseDnsResolver}
    (h : run step new actions = some r) :
    r.cache.size ≤ 4096 ∧ r.outstanding.Nodup ∧
    (∀ ip, ip ∈ r.outstanding ↔ r.Pending ip ∨ r.marking = some ip) ∧
    (r.marking = none → ∀ ip, r.Pending ip ↔ ip ∈ r.outstanding) ∧
    ∀ ip now times name, (r.lookup ip now times).1 = some name →
      lastWrite ip (history new actions) = some (.resolved (some name)) := by
  have hr : r.Consistent :=
    run_invariant (fun s a t hs ht => hs.step ht) consistent_new h
  refine ⟨hr.bounded, hr.nodup, hr.mem_outstanding_iff, ?_, ?_⟩
  · intro hfree ip
    rw [hr.mem_outstanding_iff, hfree]
    simp
  · intro ip now times name hname
    obtain ⟨entry, hentry, hentryname⟩ := lookup_eq_some hname
    obtain ⟨hlast, hpending⟩ := recorded_run h ip entry hentry
    have hdone : ¬ entry.pending = true := by
      intro hp
      rw [hpending hp] at hentryname
      cases hentryname
    rw [hlast, entryWrite, if_neg hdone, hentryname]

/-- The address 127.0.1.1. -/
def localhost : IpAddr := .v4 ⟨[127, 0, 1, 1], rfl⟩

/-- The state after the first lookup of an address that has been resolved. -/
def resolvedLocalhost : ReverseDnsResolver :=
  ⟨⟨[(localhost, ⟨some "localhost", 303, false⟩)], List.nodup_singleton _⟩, [],
    List.replicate 4 .idle, none⟩

theorem run_outstanding_localhost :
    resolvedLocalhost.outstanding.Nodup ∧
    lastWrite localhost (history new [.lookup localhost 1 fun _ => 1, .mark 1, .receive 2,
      .complete 2 (some "localhost") 3]) = some (.resolved (some "localhost")) := by
  have hrun : run step new [.lookup localhost 1 fun _ => 1, .mark 1, .receive 2,
      .complete 2 (some "localhost") 3] = some resolvedLocalhost := by
    rfl
  obtain ⟨-, hnodup, -, -, hname⟩ := run_outstanding hrun
  exact ⟨hnodup, hname localhost 5 (fun _ => 5) "localhost" rfl⟩

end ReverseDnsResolver

end Procinsh
