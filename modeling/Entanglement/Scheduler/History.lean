import Entanglement.Scheduler.Pool

/-!
# The worker pool over a history of calls

The pool is a summary of the calls made on it: it holds for each peer the advert of the last upsert
that was taken, unless the peer was removed or went stale since (`LastUpsert`). `pool_sound` says so
after every sequence of calls, together with the cap and the validity of what is held.
-/

namespace Entanglement.Scheduler

open Lib

/-- The calls that change a pool. -/
inductive PoolCall
  | upsert (info : WorkerInfo)
  | remove (peer : PeerId)
  | removeStale (ttl : Nat)

inductive PoolReply
  | upserted (taken : Bool)
  | removed (info : Option WorkerInfo)
  | dropped (count : Nat)

/-- A call, the time that it read off the clock, and what it returned. -/
structure PoolEvent where
  now : Nat
  call : PoolCall
  reply : PoolReply

def perform (pool : WorkerPool) (now : Nat) : PoolCall → WorkerPool × PoolReply
  | .upsert info => ((pool.upsert now info).1, .upserted (pool.upsert now info).2)
  | .remove peer => ((pool.remove peer).1, .removed (pool.remove peer).2)
  | .removeStale ttl => ((pool.removeStale now ttl).1, .dropped (pool.removeStale now ttl).2)

/-- A pool and what has happened to it. -/
structure LoggedPool where
  pool : WorkerPool
  log : List PoolEvent

def LoggedPool.step (s : LoggedPool) (c : Nat × PoolCall) : LoggedPool :=
  ⟨(perform s.pool c.1 c.2).1, s.log ++ [⟨c.1, c.2, (perform s.pool c.1 c.2).2⟩]⟩

/-- The calls one after the other, on a new pool. -/
def runPool (maxWorkers : Nat) (calls : List (Nat × PoolCall)) : LoggedPool :=
  calls.foldl LoggedPool.step ⟨.withMaxWorkers maxWorkers, []⟩

/-! ## What a pool is meant to hold -/

/-- The event is an upsert of the advert at that time, and it was taken. -/
def PoolEvent.Writes (info : WorkerInfo) (at_ : Nat) (e : PoolEvent) : Prop :=
  e = ⟨at_, .upsert info, .upserted true⟩

/-- The event replaces or removes the entry that was written for the peer at a time: another upsert
that was taken, a removal of the peer, or a sweep for which the entry is too old. -/
def PoolEvent.Ends (peer : PeerId) (at_ : Nat) : PoolEvent → Prop
  | ⟨_, .upsert info, .upserted true⟩ => info.peerId = peer
  | ⟨_, .remove p, _⟩ => p = peer
  | ⟨now, .removeStale ttl, _⟩ => ttl ≤ now - at_
  | _ => False

/-- The advert was taken at that time, and since then its entry was neither replaced nor removed. -/
def LastUpsert (log : List PoolEvent) (info : WorkerInfo) (at_ : Nat) : Prop :=
  Since (PoolEvent.Writes info at_) (PoolEvent.Ends info.peerId at_) log

/-- What holds of a pool with a cap. -/
structure PoolSound (maxWorkers : Nat) (s : LoggedPool) : Prop where
  capacity : s.pool.len ≤ maxWorkers
  valid : ∀ peer info at_, s.pool.inner.lookup peer = some (info, at_) → info.validate = .ok ()
  /-- An upsert is taken if the advert is valid and its peer is known or there is room. -/
  upsert : ∀ now info, (s.pool.upsert now info).2 = true ↔
    info.validate = .ok () ∧ (info.peerId ∈ s.pool.inner ∨ s.pool.len < maxWorkers)
  unchanged : ∀ now info, (s.pool.upsert now info).2 = false → (s.pool.upsert now info).1 = s.pool
  /-- The live workers are those of the last upserts that are younger than the time to live. -/
  live : ∀ ttl now info, info ∈ s.pool.live ttl now ↔
    ∃ at_, LastUpsert s.log info at_ ∧ now - at_ < ttl
  distinct : ∀ ttl now, ((s.pool.live ttl now).map WorkerInfo.peerId).Nodup
  /-- A sweep keeps the entries that are young enough, and returns how many it drops. -/
  kept : ∀ now ttl peer e, (s.pool.removeStale now ttl).1.inner.lookup peer = some e ↔
    s.pool.inner.lookup peer = some e ∧ now - e.2 < ttl
  dropped : ∀ now ttl,
    (s.pool.removeStale now ttl).1.len + (s.pool.removeStale now ttl).2 = s.pool.len
  swept : ∀ now ttl t, t ≤ ttl → (s.pool.removeStale now ttl).1.live t now = s.pool.live t now

namespace WorkerPool

variable {pool : WorkerPool} {now ttl : Nat} {info : WorkerInfo}

theorem upsert_eq_true : (pool.upsert now info).2 = true ↔
    info.validate = .ok () ∧ (info.peerId ∈ pool.inner ∨ pool.len < pool.maxWorkers) := by
  unfold upsert len
  split
  · next h => simp [h]
  · next h =>
    split
    · next hfull => simp [h, hfull.1, Nat.not_lt.2 hfull.2]
    · next hroom =>
      rw [not_and_or, not_not, Nat.not_le] at hroom
      simp [h, hroom]

/-- A refused advert changes nothing. -/
theorem upsert_of_false (h : (pool.upsert now info).2 = false) : (pool.upsert now info).1 = pool := by
  unfold upsert at h ⊢
  split
  · rfl
  · next hvalid =>
    rw [hvalid] at h
    split
    · rfl
    · next hroom =>
      simp only [if_neg hroom] at h
      cases h

theorem upsert_of_true (h : (pool.upsert now info).2 = true) :
    (pool.upsert now info).1 = { pool with inner := pool.inner.insert info.peerId (info, now) } := by
  unfold upsert at h ⊢
  split at h
  · cases h
  · next hvalid =>
    split at h
    · cases h
    · next hroom =>
      exact congrArg Prod.fst (if_neg hroom)

theorem removeStale_lookup {peer : PeerId} {e : WorkerInfo × Nat} :
    (pool.removeStale now ttl).1.inner.lookup peer = some e ↔
      pool.inner.lookup peer = some e ∧ now - e.2 < ttl := by
  unfold removeStale
  rw [Map.lookup_retain_eq_some, decide_eq_true_iff]

theorem mem_live_iff : info ∈ pool.live ttl now ↔
    ∃ peer at_, pool.inner.lookup peer = some (info, at_) ∧ now - at_ < ttl := by
  unfold live
  rw [List.mem_map]
  constructor
  · rintro ⟨⟨peer, info, at_⟩, he, rfl⟩
    obtain ⟨hmem, hyoung⟩ := List.mem_filter.1 he
    exact ⟨peer, at_, AList.mem_lookup_iff.2 hmem, of_decide_eq_true hyoung⟩
  · rintro ⟨peer, at_, hlookup, hyoung⟩
    exact ⟨⟨peer, info, at_⟩,
      List.mem_filter.2 ⟨AList.mem_lookup_iff.1 hlookup, decide_eq_true hyoung⟩, rfl⟩

/-- What a sweep drops is not live within a shorter time. -/
theorem removeStale_live {t : Nat} (h : t ≤ ttl) :
    (pool.removeStale now ttl).1.live t now = pool.live t now := by
  unfold live removeStale Map.retain
  dsimp only
  rw [List.filter_filter]
  congr 1
  refine List.filter_congr fun e _ => ?_
  by_cases hyoung : now - e.2.2 < t
  · simp [hyoung, Nat.lt_of_lt_of_le hyoung h]
  · simp [hyoung]

end WorkerPool

/-! ## Runs -/

/-- The invariant of a run: the entries are the last upserts. -/
structure Summary (maxWorkers : Nat) (s : LoggedPool) : Prop where
  cap : s.pool.maxWorkers = maxWorkers
  capacity : s.pool.len ≤ maxWorkers
  valid : ∀ {peer info at_}, s.pool.inner.lookup peer = some (info, at_) → info.validate = .ok ()
  entries : ∀ {peer info at_}, s.pool.inner.lookup peer = some (info, at_) ↔
    info.peerId = peer ∧ LastUpsert s.log info at_

namespace Summary

variable {maxWorkers : Nat} {s : LoggedPool} (h : Summary maxWorkers s)
include h

theorem refused {now : Nat} {info : WorkerInfo} (hrefused : (s.pool.upsert now info).2 = false) :
    Summary maxWorkers (s.step (now, .upsert info)) := by
  have hpool : (s.step (now, .upsert info)).pool = s.pool := WorkerPool.upsert_of_false hrefused
  have hlog : ∀ i at_, LastUpsert (s.step (now, .upsert info)).log i at_ ↔ LastUpsert s.log i at_ := by
    intro i at_
    simp only [LoggedPool.step, perform, hrefused, LastUpsert, since_concat]
    simp [PoolEvent.Writes, PoolEvent.Ends]
  refine ⟨by rw [hpool]; exact h.cap, by rw [hpool]; exact h.capacity, ?_, ?_⟩
  · intro peer i at_ hlookup
    rw [hpool] at hlookup
    exact h.valid hlookup
  · intro peer i at_
    rw [hpool, hlog]
    exact h.entries

theorem taken {now : Nat} {info : WorkerInfo} (htaken : (s.pool.upsert now info).2 = true) :
    Summary maxWorkers (s.step (now, .upsert info)) := by
  have hpool : (s.step (now, .upsert info)).pool =
      { s.pool with inner := s.pool.inner.insert info.peerId (info, now) } :=
    WorkerPool.upsert_of_true htaken
  obtain ⟨hvalid, hroom⟩ := WorkerPool.upsert_eq_true.1 htaken
  have hlog : ∀ i at_, LastUpsert (s.step (now, .upsert info)).log i at_ ↔
      (now = at_ ∧ info = i) ∨ (info.peerId ≠ i.peerId ∧ LastUpsert s.log i at_) := by
    intro i at_
    simp only [LoggedPool.step, perform, htaken, LastUpsert, since_concat]
    simp [PoolEvent.Writes, PoolEvent.Ends]
  refine ⟨by rw [hpool]; exact h.cap, ?_, ?_, ?_⟩
  · rw [hpool, WorkerPool.len, Map.length_insert]
    rw [h.cap] at hroom
    split
    · exact h.capacity
    · next hnew => exact Nat.succ_le_of_lt (hroom.resolve_left hnew)
  · intro peer i at_ hlookup
    rw [hpool] at hlookup
    rcases Map.lookup_insert_eq_some.1 hlookup with ⟨-, heq⟩ | ⟨-, hold⟩
    · cases heq
      exact hvalid
    · exact h.valid hold
  · intro peer i at_
    rw [hpool, hlog, Map.lookup_insert_eq_some, h.entries]
    constructor
    · rintro (⟨rfl, heq⟩ | ⟨hne, rfl, hlast⟩)
      · cases heq
        exact ⟨rfl, .inl ⟨rfl, rfl⟩⟩
      · exact ⟨rfl, .inr ⟨Ne.symm hne, hlast⟩⟩
    · rintro ⟨rfl, ⟨rfl, rfl⟩ | ⟨hne, hlast⟩⟩
      · exact .inl ⟨rfl, rfl⟩
      · exact .inr ⟨Ne.symm hne, rfl, hlast⟩

theorem upsert (now : Nat) (info : WorkerInfo) :
    Summary maxWorkers (s.step (now, .upsert info)) := by
  cases htaken : (s.pool.upsert now info).2 with
  | false => exact h.refused htaken
  | true => exact h.taken htaken

theorem remove (now : Nat) (peer : PeerId) : Summary maxWorkers (s.step (now, .remove peer)) := by
  have hlog : ∀ i at_, LastUpsert (s.step (now, .remove peer)).log i at_ ↔
      peer ≠ i.peerId ∧ LastUpsert s.log i at_ := by
    intro i at_
    simp only [LoggedPool.step, perform, LastUpsert, since_concat]
    simp [PoolEvent.Writes, PoolEvent.Ends]
  refine ⟨h.cap, Nat.le_trans Map.length_erase_le h.capacity, ?_, ?_⟩
  · intro p i at_ hlookup
    exact h.valid (Map.lookup_erase_eq_some.1 hlookup).2
  · intro p i at_
    rw [hlog]
    refine Map.lookup_erase_eq_some.trans ?_
    rw [h.entries]
    constructor
    · rintro ⟨hne, rfl, hlast⟩
      exact ⟨rfl, Ne.symm hne, hlast⟩
    · rintro ⟨rfl, hne, hlast⟩
      exact ⟨Ne.symm hne, rfl, hlast⟩

theorem removeStale (now ttl : Nat) : Summary maxWorkers (s.step (now, .removeStale ttl)) := by
  have hlog : ∀ i at_, LastUpsert (s.step (now, .removeStale ttl)).log i at_ ↔
      now - at_ < ttl ∧ LastUpsert s.log i at_ := by
    intro i at_
    simp only [LoggedPool.step, perform, LastUpsert, since_concat]
    simp [PoolEvent.Writes, PoolEvent.Ends]
  refine ⟨h.cap, Nat.le_trans (Map.length_retain_le _) h.capacity, ?_, ?_⟩
  · intro p i at_ hlookup
    exact h.valid (WorkerPool.removeStale_lookup.1 hlookup).1
  · intro p i at_
    rw [hlog]
    refine WorkerPool.removeStale_lookup.trans ?_
    rw [h.entries]
    exact ⟨fun ⟨⟨hid, hlast⟩, hyoung⟩ => ⟨hid, hyoung, hlast⟩,
      fun ⟨hid, hyoung, hlast⟩ => ⟨⟨hid, hlast⟩, hyoung⟩⟩

/-- A call keeps the invariant. -/
theorem step (c : Nat × PoolCall) : Summary maxWorkers (s.step c) := by
  obtain ⟨now, call⟩ := c
  cases call with
  | upsert info => exact h.upsert now info
  | remove peer => exact h.remove now peer
  | removeStale ttl => exact h.removeStale now ttl

theorem distinct (ttl now : Nat) : ((s.pool.live ttl now).map WorkerInfo.peerId).Nodup := by
  have hkeys : (s.pool.live ttl now).map WorkerInfo.peerId =
      (s.pool.inner.entries.filter fun e => decide (now - e.2.2 < ttl)).map Sigma.fst := by
    rw [WorkerPool.live, List.map_map]
    refine List.map_congr_left fun e he => ?_
    exact (h.entries.1 (AList.mem_lookup_iff.2 (List.mem_of_mem_filter he))).1
  rw [hkeys]
  exact s.pool.inner.nodupKeys.sublist List.filter_sublist

end Summary

/-- The run: the pool is summed up after every sequence of calls. -/
theorem summary_runPool (maxWorkers : Nat) (calls : List (Nat × PoolCall)) :
    Summary maxWorkers (runPool maxWorkers calls) := by
  have hinit : Summary maxWorkers ⟨.withMaxWorkers maxWorkers, []⟩ := by
    refine ⟨rfl, Nat.zero_le _, ?_, ?_⟩
    · intro peer info at_ hlookup
      cases hlookup
    · intro peer info at_
      constructor
      · intro hlookup
        cases hlookup
      · exact fun hlast => absurd hlast.2 not_since_nil
  unfold runPool
  generalize LoggedPool.mk (.withMaxWorkers maxWorkers) [] = s at hinit
  induction calls generalizing s with
  | nil => exact hinit
  | cons c calls ih => exact ih _ (hinit.step c)

/-- **The worker pool over its whole life**: after any sequence of calls, at whatever times, the pool
is within its cap, holds valid adverts, shows as live exactly the last upserts that are young enough,
and decides about the next call as it should. -/
theorem pool_sound (maxWorkers : Nat) (calls : List (Nat × PoolCall)) :
    PoolSound maxWorkers (runPool maxWorkers calls) := by
  have h := summary_runPool maxWorkers calls
  generalize runPool maxWorkers calls = s at h
  constructor
  · exact h.capacity
  · exact fun peer info at_ => h.valid
  · intro now info
    rw [WorkerPool.upsert_eq_true, h.cap]
  · exact fun now info => WorkerPool.upsert_of_false
  · intro ttl now info
    rw [WorkerPool.mem_live_iff]
    constructor
    · rintro ⟨peer, at_, hlookup, hyoung⟩
      exact ⟨at_, (h.entries.1 hlookup).2, hyoung⟩
    · rintro ⟨at_, hlast, hyoung⟩
      exact ⟨info.peerId, at_, h.entries.2 ⟨rfl, hlast⟩, hyoung⟩
  · exact h.distinct
  · exact fun now ttl peer e => WorkerPool.removeStale_lookup
  · intro now ttl
    exact Nat.add_sub_cancel' (Map.length_retain_le _)
  · exact fun now ttl t => WorkerPool.removeStale_live

end Entanglement.Scheduler
