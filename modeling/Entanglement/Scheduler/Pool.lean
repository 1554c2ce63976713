import Entanglement.Lib.Map
import Entanglement.Scheduler.Placement

/-!
# The worker pool (`entangle-scheduler`, `worker.rs`)

What the pool holds after an advert was written or removed. The pool takes an advert unless its
numbers are poisoned, or it is of a new worker and there is no room: `info_upsert` is for pools with
room.
-/

namespace Entanglement.Scheduler

open Lib

inductive WorkerValidationError
  | cpuCores (got : F32)
  | cost (got : F32)
  | load (got : F32)
  deriving DecidableEq

/-- `f < 0.0`. -/
def negative (f : F32) : Bool := f.partialCmp (.fin 0) == some .lt

def WorkerInfo.validate (info : WorkerInfo) : Except WorkerValidationError Unit :=
  if info.cpuCores.isFinite = false ∨ negative info.cpuCores then .error (.cpuCores info.cpuCores)
  else if info.cost.isFinite = false ∨ negative info.cost then .error (.cost info.cost)
  else if info.load.isFinite = false then .error (.load info.load)
  else .ok ()

namespace WorkerPool

def withMaxWorkers (maxWorkers : Nat) : WorkerPool := ⟨∅, maxWorkers⟩

/-- `DEFAULT_MAX_WORKERS`. -/
def defaultMaxWorkers : Nat := 4096

def new : WorkerPool := withMaxWorkers defaultMaxWorkers

/-- `WorkerPool::upsert` at time `now`: the pool, and whether it was updated. -/
def upsert (pool : WorkerPool) (now : Nat) (info : WorkerInfo) : WorkerPool × Bool :=
  match info.validate with
  | .error _ => (pool, false)
  | .ok () =>
    if info.peerId ∉ pool.inner ∧ pool.maxWorkers ≤ pool.inner.keys.length then (pool, false)
    else ({ pool with inner := pool.inner.insert info.peerId (info, now) }, true)

/-- `WorkerPool::remove`: the pool, and the advert that was removed. -/
def remove (pool : WorkerPool) (peer : PeerId) : WorkerPool × Option WorkerInfo :=
  ({ pool with inner := pool.inner.erase peer }, (pool.inner.lookup peer).map Prod.fst)

/-- `WorkerPool::len`: entries that have expired count as well. -/
def len (pool : WorkerPool) : Nat := pool.inner.keys.length

/-- `WorkerPool::remove_stale` at time `now`: the pool, and how many workers were dropped. -/
def removeStale (pool : WorkerPool) (now ttl : Nat) : WorkerPool × Nat :=
  let inner := Map.retain (fun _ e => decide (now - e.2 < ttl)) pool.inner
  ({ pool with inner }, pool.inner.keys.length - inner.keys.length)

/-- The advert of a worker, without the time of its last update. -/
def info (pool : WorkerPool) (peer : PeerId) : Option WorkerInfo :=
  (pool.inner.lookup peer).map Prod.fst

variable {pool : WorkerPool} {now : Nat} {w : WorkerInfo} {peer : PeerId}

@[simp] theorem maxWorkers_upsert : (pool.upsert now w).1.maxWorkers = pool.maxWorkers := by
  unfold upsert
  split
  · rfl
  · split <;> rfl

theorem info_remove (peer k : PeerId) :
    (pool.remove peer).1.info k = if k = peer then none else pool.info k := by
  unfold remove info
  by_cases h : k = peer
  · subst h
    simp [AList.lookup_erase]
  · rw [if_neg h, AList.lookup_erase_ne h]

/-- A pool that has room takes every valid advert. -/
theorem info_upsert (hvalid : w.validate = .ok ()) (hroom : pool.inner.keys.length < pool.maxWorkers)
    (k : PeerId) : (pool.upsert now w).1.info k = if k = w.peerId then some w else pool.info k := by
  have hupsert : (pool.upsert now w).1 =
      { pool with inner := pool.inner.insert w.peerId (w, now) } := by
    unfold upsert
    rw [hvalid]
    simp only [if_neg fun hfull : w.peerId ∉ pool.inner ∧ pool.maxWorkers ≤ pool.inner.keys.length =>
      Nat.not_le.2 hroom hfull.2]
  rw [hupsert]
  unfold info
  by_cases h : k = w.peerId
  · subst h
    simp [AList.lookup_insert]
  · rw [if_neg h, AList.lookup_insert_ne h]

theorem info_of_mem (h : peer ∈ pool.inner.keys) : ∃ w, pool.info peer = some w := by
  obtain ⟨e, he⟩ := Option.isSome_iff_exists.1 (AList.lookup_isSome.2 (AList.mem_keys.2 h))
  exact ⟨e.1, by rw [info, he]; rfl⟩

/-- Within the longest duration of all, every worker of the pool is live. -/
theorem mem_live {ttl : Nat} (hnow : now < ttl) :
    w ∈ pool.live ttl now ↔ ∃ peer, pool.info peer = some w := by
  have hlive : ∀ e : (_ : PeerId) × (WorkerInfo × Nat), decide (now - e.2.2 < ttl) = true :=
    fun e => decide_eq_true (Nat.lt_of_le_of_lt (Nat.sub_le _ _) hnow)
  constructor
  · intro h
    obtain ⟨e, he, rfl⟩ := List.mem_map.1 h
    refine ⟨e.1, ?_⟩
    rw [info, AList.mem_lookup_iff.2 (List.mem_of_mem_filter he)]
    rfl
  · rintro ⟨peer, h⟩
    obtain ⟨e, he, rfl⟩ := Option.map_eq_some_iff.1 h
    exact List.mem_map.2 ⟨⟨peer, e⟩, List.mem_filter.2 ⟨AList.mem_lookup_iff.1 he, hlive _⟩, rfl⟩

end WorkerPool

end Entanglement.Scheduler
