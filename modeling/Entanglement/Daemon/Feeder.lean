import Entanglement.Lib.Fair
import Entanglement.Lib.Feed
import Entanglement.Mesh.Discovery
import Entanglement.Peers.Store
import Entanglement.Scheduler.Pool

/-!
# Sightings as workers (`entangle-bin`, the discovery feeder)

The feeder takes the events of the browser from a broadcast channel and keeps the worker pool: the
trusted peers that advertise hardware. When the channel has dropped events before the feeder could
read them, the feeder rebuilds the pool from the map of sightings and reads on with what the channel
has kept. `pool_eq_resync_of_steady` says when the pool is what a rebuild would make of it. It is
not for a peer that stops advertising hardware: the event is ignored, where a rebuild would remove the
worker.
-/

namespace Entanglement.Daemon

open Lib Mesh Scheduler Peers

/-! ## The functions of the feeder -/

/-- In the peer store, and not revoked. -/
def isTrusted (store : PeerStore) (peer : PeerId) : Bool :=
  match store.get peer with
  | some p => p.trust ≠ .revoked
  | none => false

def workerInfoFromSighting (p : PeerSeen) : Option WorkerInfo :=
  p.hardware.map fun hw => {
    peerId := p.peerId
    displayName := p.displayName
    cpuCores := hw.cpuCores.1
    memoryBytes := hw.memoryBytes
    gpu := hw.gpuBackend.map fun backend => ⟨hw.gpuVramBytes, backend⟩
    npu := none
    networkBandwidthBps := hw.networkBandwidthBps
    rttMs := 5
    load := .fin 0
    cost := .fin 1 }

section Functions
variable (store : PeerStore) (localPeer : PeerId)

/-- The arm of `apply_discovery_event` for a sighting. -/
def applySighting (now : Nat) (pool : WorkerPool) (p : PeerSeen) : WorkerPool :=
  if p.peerId = localPeer then pool
  else if isTrusted store p.peerId = false then pool
  else
    match workerInfoFromSighting p with
    | some info => (pool.upsert now info).1
    | none => pool

def applyDiscoveryEvent (now : Nat) (pool : WorkerPool) : DiscoveryEvent → WorkerPool
  | .peerAppeared p => applySighting store localPeer now pool p
  | .peerUpdated p => applySighting store localPeer now pool p
  | .peerDisappeared peer _ => (pool.remove peer).1

/-- The workers that a snapshot calls for; each is kept under its own id. -/
def desiredWorkers (snapshot : List PeerSeen) : AList fun _ : PeerId => WorkerInfo :=
  ((snapshot.filter fun p => p.peerId ≠ localPeer ∧ isTrusted store p.peerId).filterMap
    workerInfoFromSighting).foldl (fun desired info => desired.insert info.peerId info) ∅

/-- `resync_pool_from_snapshot`, at one reading of the clock. -/
def resyncPoolFromSnapshot (now : Nat) (snapshot : List PeerSeen) (pool : WorkerPool) : WorkerPool :=
  let desired := desiredWorkers store localPeer snapshot
  let pool := (pool.live durationMax now).foldl (fun pool existing =>
    if existing.peerId ∈ desired then pool else (pool.remove existing.peerId).1) pool
  desired.entries.foldl (fun pool e => (pool.upsert now e.2).1) pool

end Functions

/-! ## Browser and feeder side by side -/

/-- The broadcast channel, seen from the feeder: the events it has not read, and how many it has missed
since it was last told so. -/
structure Channel where
  unread : List DiscoveryEvent
  missed : Nat

/-- A full channel drops its oldest event. -/
def Channel.send (capacity : Nat) (ch : Channel) (e : DiscoveryEvent) : Channel :=
  if ch.unread.length < capacity then { ch with unread := ch.unread ++ [e] }
  else ⟨ch.unread.tail ++ [e], ch.missed + 1⟩

/-- Where the feeder is: before its subscription, waiting for an event, holding one, told that it has
lagged, or holding a snapshot. -/
inductive Feeder
  | starting
  | waiting
  | holding (e : DiscoveryEvent)
  | lagged
  | resyncing (snapshot : List PeerSeen)

structure World where
  peers : Sightings
  channel : Channel
  pool : WorkerPool
  feeder : Feeder

/-- The daemon starts the browser first and the feeder after it. -/
def World.initial (maxWorkers : Nat) : World := ⟨∅, ⟨[], 0⟩, .withMaxWorkers maxWorkers, .starting⟩

/-- The channel after the browser has sent an event; before the subscription nobody gets it. -/
def World.publish (capacity : Nat) (s : World) : Option DiscoveryEvent → Channel
  | none => s.channel
  | some e =>
    match s.feeder with
    | .starting => s.channel
    | _ => s.channel.send capacity e

/-- A turn of the browser, which holds the lock of the map until it has sent its event, or a step of the
feeder. The snapshot comes in whatever order the hash map has. -/
inductive Step
  | resolved (now : Nat) (info : ResolvedService)
  | removed (fullname : Text)
  | subscribe
  | recv
  | apply (now : Nat)
  | snapshot (order : List PeerSeen)
  | resync (now : Fin durationMax)

def discovery (X : Crates) (store : PeerStore) (localPeer : PeerId) (capacity maxWorkers : Nat) :
    Lts World Step where
  init s := s = .initial maxWorkers
  next s
    | .resolved now info =>
      let turn := serviceResolved X localPeer s.peers now info
      some { s with peers := turn.1, channel := s.publish capacity turn.2 }
    | .removed fullname =>
      let turn := serviceRemoved s.peers fullname
      some { s with peers := turn.1, channel := s.publish capacity turn.2 }
    | .subscribe =>
      match s.feeder with
      | .starting => some { s with feeder := .waiting }
      | _ => none
    | .recv =>
      match s.feeder with
      | .waiting =>
        if s.channel.missed ≠ 0 then some { s with channel := ⟨s.channel.unread, 0⟩, feeder := .lagged }
        else
          match s.channel.unread with
          | [] => none
          | e :: unread => some { s with channel := ⟨unread, 0⟩, feeder := .holding e }
      | _ => none
    | .apply now =>
      match s.feeder with
      | .holding e =>
        some { s with pool := applyDiscoveryEvent store localPeer now s.pool e, feeder := .waiting }
      | _ => none
    | .snapshot order =>
      match s.feeder with
      | .lagged =>
        if order.Perm (snapshotPeers s.peers) then some { s with feeder := .resyncing order } else none
      | _ => none
    | .resync now =>
      match s.feeder with
      | .resyncing snapshot =>
        some { s with
          pool := resyncPoolFromSnapshot store localPeer now snapshot s.pool
          feeder := .waiting }
      | _ => none

/-- The feeder has read everything. -/
structure World.Consumed (s : World) : Prop where
  waiting : s.feeder = .waiting
  unread : s.channel.unread = []
  missed : s.channel.missed = 0

/-! ## What the pool should hold -/

/-- The peers of the store that are trusted. -/
def trustedPeers (store : PeerStore) : List PeerId := store.inner.keys.filter (isTrusted store)

variable {peers : Sightings}

section Pool
variable (store : PeerStore) (localPeer : PeerId)

/-- The workers that the sightings call for: the trusted peers other than this one that advertise
hardware. -/
def wanted (peers : Sightings) (k : PeerId) : Option WorkerInfo :=
  if k ≠ localPeer ∧ isTrusted store k then (peers.lookup k).bind workerInfoFromSighting else none

/-- What a sighting writes into the pool: nothing without hardware. -/
def sightingWrites (p : PeerSeen) (k : PeerId) : Option (Option WorkerInfo) :=
  if k = p.peerId ∧ k ≠ localPeer ∧ isTrusted store k then (workerInfoFromSighting p).map some
  else none

def writes : DiscoveryEvent → PeerId → Option (Option WorkerInfo)
  | .peerAppeared p => sightingWrites store localPeer p
  | .peerUpdated p => sightingWrites store localPeer p
  | .peerDisappeared peer _ => fun k => if k = peer then some none else none

/-- The pool holds trusted peers only, each under its own id, and could hold all of them. -/
structure Sound (pool : WorkerPool) : Prop where
  own : ∀ k w, pool.info k = some w → w.peerId = k
  trusted : ∀ k w, pool.info k = some w → isTrusted store k = true
  room : (trustedPeers store).length < pool.maxWorkers

variable {store localPeer} {pool : WorkerPool} {now : Nat} {w : WorkerInfo}

theorem mem_trustedPeers {k : PeerId} (h : isTrusted store k = true) : k ∈ trustedPeers store := by
  refine List.mem_filter.2 ⟨?_, h⟩
  unfold isTrusted PeerStore.get at h
  cases hk : store.inner.lookup k with
  | none => rw [hk] at h; cases h
  | some p => exact AList.mem_keys.1 (AList.lookup_isSome.1 (by rw [hk]; rfl))

theorem wanted_empty : wanted store localPeer ∅ = fun _ => none := by
  funext k
  simp [wanted]

theorem Sound.new {maxWorkers : Nat} (h : (trustedPeers store).length < maxWorkers) :
    Sound store (.withMaxWorkers maxWorkers) :=
  ⟨fun _ _ hw => (nomatch hw), fun _ _ hw => (nomatch hw), h⟩

/-- There is room for one more worker. -/
theorem Sound.hasRoom (h : Sound store pool) : pool.inner.keys.length < pool.maxWorkers := by
  have hsub : pool.inner.keys ⊆ trustedPeers store := by
    intro k hk
    obtain ⟨w, hw⟩ := WorkerPool.info_of_mem hk
    exact mem_trustedPeers (h.trusted k w hw)
  have hle : pool.inner.keys.length ≤ (trustedPeers store).length :=
    (List.subperm_of_subset pool.inner.keys_nodup hsub).length_le
  exact Nat.lt_of_le_of_lt hle h.room

theorem Sound.remove (h : Sound store pool) (peer : PeerId) : Sound store (pool.remove peer).1 := by
  have hinfo : ∀ k w, (pool.remove peer).1.info k = some w → pool.info k = some w := by
    intro k w hw
    rw [WorkerPool.info_remove] at hw
    split at hw
    · cases hw
    · exact hw
  exact ⟨fun k w hw => h.own k w (hinfo k w hw), fun k w hw => h.trusted k w (hinfo k w hw), h.room⟩

theorem Sound.upsert (h : Sound store pool) (hvalid : w.validate = .ok ())
    (hw : isTrusted store w.peerId = true) : Sound store (pool.upsert now w).1 := by
  have hinfo : ∀ k, (pool.upsert now w).1.info k = if k = w.peerId then some w else pool.info k :=
    WorkerPool.info_upsert hvalid h.hasRoom
  constructor
  · intro k v hv
    rw [hinfo] at hv
    split at hv
    · next hk => cases hv; exact hk.symm
    · exact h.own k v hv
  · intro k v hv
    rw [hinfo] at hv
    split at hv
    · next hk => exact hk ▸ hw
    · exact h.trusted k v hv
  · rw [WorkerPool.maxWorkers_upsert]
    exact h.room

/-! ## One event -/

/-- The parser lets no poisoned number through. -/
theorem validate_of_sighting {p : PeerSeen} (h : workerInfoFromSighting p = some w) :
    w.validate = .ok () ∧ w.peerId = p.peerId := by
  obtain ⟨hw, -, rfl⟩ := Option.map_eq_some_iff.1 h
  obtain ⟨q, hq, hcores⟩ := hw.cpuCores.2
  have hcpu : negative (.fin q) = false := by
    have hnlt : compare q 0 ≠ .lt := fun hlt => not_lt.2 hq (compare_lt_iff_lt.1 hlt)
    simpa [negative, F32.partialCmp] using hnlt
  refine ⟨?_, rfl⟩
  simp only [WorkerInfo.validate, hcores, hcpu]
  rfl

theorem applySighting_spec (h : Sound store pool) (p : PeerSeen) :
    Sound store (applySighting store localPeer now pool p) ∧
      (applySighting store localPeer now pool p).info =
        fun k => (sightingWrites store localPeer p k).getD (pool.info k) := by
  unfold applySighting sightingWrites
  split_ifs with hlocal htrusted
  · refine ⟨h, funext fun k => ?_⟩
    rw [if_neg fun hk => hk.2.1 (hk.1.trans hlocal)]
    rfl
  · refine ⟨h, funext fun k => ?_⟩
    rw [if_neg fun hk => by rw [hk.1, htrusted] at hk; exact Bool.false_ne_true hk.2.2]
    rfl
  · have htrust : isTrusted store p.peerId = true := by simpa using htrusted
    cases hinfo : workerInfoFromSighting p with
    | none =>
      refine ⟨h, funext fun k => ?_⟩
      simp
    | some w =>
      obtain ⟨hvalid, hid⟩ := validate_of_sighting hinfo
      refine ⟨h.upsert hvalid (hid ▸ htrust), funext fun k => ?_⟩
      rw [WorkerPool.info_upsert hvalid h.hasRoom, hid]
      by_cases hk : k = p.peerId
      · subst hk
        simp [hlocal, htrust]
      · simp [hk]

theorem applyDiscoveryEvent_spec (h : Sound store pool) (e : DiscoveryEvent) :
    Sound store (applyDiscoveryEvent store localPeer now pool e) ∧
      (applyDiscoveryEvent store localPeer now pool e).info =
        Feed.apply (writes store localPeer) pool.info e := by
  cases e with
  | peerAppeared p => exact applySighting_spec h p
  | peerUpdated p => exact applySighting_spec h p
  | peerDisappeared peer name =>
    refine ⟨h.remove peer, funext fun k => ?_⟩
    simp only [applyDiscoveryEvent, WorkerPool.info_remove, Feed.apply, writes]
    split <;> rfl

/-! ## A rebuild -/

theorem workerIds_sublist (snapshot : List PeerSeen) :
    ((snapshot.filterMap workerInfoFromSighting).map WorkerInfo.peerId).Sublist
      (snapshot.map PeerSeen.peerId) := by
  induction snapshot with
  | nil => exact .slnil
  | cons p snapshot ih =>
    cases hp : workerInfoFromSighting p with
    | none =>
      rw [List.filterMap_cons_none hp]
      exact ih.cons _
    | some w =>
      rw [List.filterMap_cons_some hp, List.map_cons, List.map_cons, (validate_of_sighting hp).2]
      exact ih.cons_cons _

/-- The workers of a snapshot are those of the sightings it was taken from. -/
theorem lookup_desiredWorkers (hpeers : peers.Own) {snapshot : List PeerSeen}
    (hsnapshot : snapshot.Perm (snapshotPeers peers)) (k : PeerId) :
    (desiredWorkers store localPeer snapshot).lookup k = wanted store localPeer peers k := by
  have hnodup : (((snapshot.filter fun p => p.peerId ≠ localPeer ∧ isTrusted store p.peerId).filterMap
      workerInfoFromSighting).map WorkerInfo.peerId).Nodup := by
    refine (workerIds_sublist _).nodup ((List.filter_sublist.map _).nodup ?_)
    exact (hsnapshot.map _).nodup_iff.2 (snapshotPeers_nodup hpeers)
  ext w
  rw [desiredWorkers, Map.lookup_foldl_insert hnodup]
  simp only [List.mem_filterMap, List.mem_filter, hsnapshot.mem_iff, mem_snapshotPeers hpeers,
    decide_eq_true_eq, wanted]
  constructor
  · rintro ⟨⟨p, ⟨hp, hlocal, htrusted⟩, hw⟩, rfl⟩
    rw [(validate_of_sighting hw).2, if_pos ⟨hlocal, htrusted⟩, hp]
    exact hw
  · intro h
    split_ifs at h with hk
    obtain ⟨p, hp, hw⟩ := Option.bind_eq_some_iff.1 h
    have hid := hpeers k p hp
    exact ⟨⟨p, ⟨hid.symm ▸ hp, hid.symm ▸ hk⟩, hw⟩, (validate_of_sighting hw).2.trans hid⟩

/-- The first loop of a rebuild. -/
theorem foldl_remove_spec (h : Sound store pool) (desired : AList fun _ : PeerId => WorkerInfo)
    (existing : List WorkerInfo) :
    let pool' := existing.foldl (fun pool w =>
      if w.peerId ∈ desired then pool else (pool.remove w.peerId).1) pool
    Sound store pool' ∧ ∀ k, pool'.info k =
      if k ∉ desired ∧ k ∈ existing.map WorkerInfo.peerId then none else pool.info k := by
  induction existing generalizing pool with
  | nil => exact ⟨h, fun k => by simp⟩
  | cons w existing ih =>
    by_cases hw : w.peerId ∈ desired
    · simp only [List.foldl_cons, if_pos hw]
      refine ⟨(ih h).1, ?_⟩
      intro k
      rw [(ih h).2]
      by_cases hk : k = w.peerId
      · simp [hk, hw]
      · simp [hk]
    · simp only [List.foldl_cons, if_neg hw]
      refine ⟨(ih (h.remove _)).1, ?_⟩
      intro k
      rw [(ih (h.remove _)).2, WorkerPool.info_remove]
      by_cases hk : k = w.peerId
      · simp [hk, hw]
      · simp [hk]

/-- The second loop of a rebuild. -/
theorem foldl_upsert_spec (h : Sound store pool) (now : Nat)
    (infos : List ((_ : PeerId) × WorkerInfo)) (hnodup : infos.NodupKeys)
    (hinfos : ∀ e ∈ infos, e.2.validate = .ok () ∧ e.2.peerId = e.1 ∧ isTrusted store e.1 = true) :
    let pool' := infos.foldl (fun pool e => (pool.upsert now e.2).1) pool
    Sound store pool' ∧ ∀ k, pool'.info k = (infos.dlookup k).or (pool.info k) := by
  induction infos generalizing pool with
  | nil => exact ⟨h, fun k => by simp⟩
  | cons e infos ih =>
    obtain ⟨⟨hvalid, hid, htrusted⟩, hrest⟩ := List.forall_mem_cons.1 hinfos
    obtain ⟨hfresh, hnodup⟩ := List.nodupKeys_cons.1 hnodup
    have hsound : Sound store (pool.upsert now e.2).1 := h.upsert hvalid (hid ▸ htrusted)
    obtain ⟨hsound', hinfo⟩ := ih hsound hnodup hrest
    refine ⟨hsound', ?_⟩
    intro k
    rw [List.foldl_cons, hinfo, WorkerPool.info_upsert hvalid h.hasRoom, hid]
    by_cases hk : k = e.1
    · obtain ⟨key, v⟩ := e
      subst hk
      rw [List.dlookup_eq_none.2 hfresh, List.dlookup_cons_eq, if_pos rfl]
      rfl
    · rw [if_neg hk, List.dlookup_cons_ne _ _ hk]

theorem resync_spec (h : Sound store pool) (hnow : now < durationMax) (hpeers : peers.Own)
    {snapshot : List PeerSeen} (hsnapshot : snapshot.Perm (snapshotPeers peers)) :
    Sound store (resyncPoolFromSnapshot store localPeer now snapshot pool) ∧
      (resyncPoolFromSnapshot store localPeer now snapshot pool).info =
        wanted store localPeer peers := by
  have hdesired : ∀ k, (desiredWorkers store localPeer snapshot).lookup k =
      wanted store localPeer peers k := lookup_desiredWorkers hpeers hsnapshot
  obtain ⟨hsound, hinfo⟩ := foldl_remove_spec h (desiredWorkers store localPeer snapshot)
    (pool.live durationMax now)
  have hinfos : ∀ e ∈ (desiredWorkers store localPeer snapshot).entries,
      e.2.validate = .ok () ∧ e.2.peerId = e.1 ∧ isTrusted store e.1 = true := by
    intro e he
    have hwanted : wanted store localPeer peers e.1 = some e.2 :=
      (hdesired e.1).symm.trans (AList.mem_lookup_iff.2 he)
    unfold wanted at hwanted
    split_ifs at hwanted with hk
    obtain ⟨p, hp, hw⟩ := Option.bind_eq_some_iff.1 hwanted
    obtain ⟨hvalid, hid⟩ := validate_of_sighting hw
    exact ⟨hvalid, hid.trans (hpeers _ _ hp), hk.2⟩
  obtain ⟨hsound', hinfo'⟩ := foldl_upsert_spec hsound now _
    (desiredWorkers store localPeer snapshot).nodupKeys hinfos
  refine ⟨hsound', funext fun k => (hinfo' k).trans ?_⟩
  rw [← hdesired k]
  change ((desiredWorkers store localPeer snapshot).lookup k).or _ = _
  cases hk : (desiredWorkers store localPeer snapshot).lookup k with
  | some w => rfl
  | none =>
    -- A worker that is not called for was in the pool, and so in the list of those to remove.
    rw [Option.none_or, hinfo k]
    split_ifs with hremoved
    · rfl
    · cases hold : pool.info k with
      | none => rfl
      | some w =>
        refine absurd ⟨AList.lookup_eq_none.1 hk, List.mem_map.2 ⟨w, ?_, h.own k w hold⟩⟩ hremoved
        exact (WorkerPool.mem_live hnow).2 ⟨k, hold⟩

end Pool

/-! ## Runs -/

section Runs
variable {X : Crates} {store : PeerStore} {localPeer : PeerId} {capacity maxWorkers : Nat}

variable (X store localPeer) in
/-- No trusted peer is seen without hardware whose last sighting had some, and when the feeder
subscribes no trusted peer with hardware is there yet. -/
def Steady (s : World) : Step → Prop
  | .resolved now info => ∀ p q, parseService X now info = some p → isTrusted store p.peerId = true →
      s.peers.lookup p.peerId = some q → p.hardware = none → q.hardware = none
  | .subscribe => wanted store localPeer s.peers = fun _ => none
  | _ => True

variable (store localPeer) in
/-- Unless the feeder is to be told that it has missed something, the view becomes what the sightings
call for once the events are read. -/
def Follows (s : World) (view : PeerId → Option WorkerInfo) (es : List DiscoveryEvent) : Prop :=
  s.channel.missed = 0 →
    Feed.Follows (writes store localPeer) (wanted store localPeer s.peers) view es

variable (store localPeer) in
/-- What the feeder has reached, and what it will make of the pool. -/
def Feeder.Ok (s : World) : Feeder → Prop
  | .starting => s.channel = ⟨[], 0⟩ ∧ s.pool.info = fun _ => none
  | .waiting => Follows store localPeer s s.pool.info s.channel.unread
  | .holding e => Follows store localPeer s s.pool.info (e :: s.channel.unread)
  | .lagged => True
  | .resyncing snapshot => ∃ peers : Sightings, peers.Own ∧ snapshot.Perm (snapshotPeers peers) ∧
      Follows store localPeer s (wanted store localPeer peers) s.channel.unread

variable (store localPeer) in
structure Inv (s : World) : Prop where
  own : s.peers.Own
  sound : Sound store s.pool
  faithful : Feed.Faithful (writes store localPeer) (wanted store localPeer s.peers) s.channel.unread
  feeder : s.feeder.Ok store localPeer s

theorem Inv.initial (h : (trustedPeers store).length < maxWorkers) :
    Inv store localPeer (.initial maxWorkers) :=
  ⟨fun _ _ hp => (nomatch hp), .new h, .nil, rfl, rfl⟩

/-! ### The browser -/

theorem workerInfo_eq_none {p : PeerSeen} : workerInfoFromSighting p = none ↔ p.hardware = none := by
  rw [workerInfoFromSighting, Option.map_eq_none_iff]

theorem wanted_insert {p : PeerSeen}
    (hsteady : isTrusted store p.peerId = true → ∀ q, peers.lookup p.peerId = some q →
      p.hardware = none → q.hardware = none) (k : PeerId) :
    wanted store localPeer (peers.insert p.peerId p) k =
      (sightingWrites store localPeer p k).getD (wanted store localPeer peers k) := by
  unfold wanted sightingWrites
  by_cases hk : k = p.peerId
  · subst hk
    rw [AList.lookup_insert]
    by_cases hadmitted : p.peerId ≠ localPeer ∧ isTrusted store p.peerId = true
    · rw [if_pos hadmitted, if_pos ⟨rfl, hadmitted⟩, if_pos hadmitted, Option.bind_some]
      cases hinfo : workerInfoFromSighting p with
      | some w => rfl
      | none =>
        -- The sighting writes nothing, and the one before it was no worker either.
        cases hq : peers.lookup p.peerId with
        | none => rfl
        | some q =>
          exact (workerInfo_eq_none.2 (hsteady hadmitted.2 q hq (workerInfo_eq_none.1 hinfo))).symm
    · rw [if_neg hadmitted, if_neg fun h => hadmitted h.2, if_neg hadmitted]
      rfl
  · rw [AList.lookup_insert_ne hk, if_neg fun h : k = p.peerId ∧ _ => hk h.1]
    rfl

theorem wanted_erase (peer : PeerId) (name : Text) :
    wanted store localPeer (peers.erase peer) =
      Feed.apply (writes store localPeer) (wanted store localPeer peers)
        (.peerDisappeared peer name) := by
  funext k
  simp only [Feed.apply, writes, wanted]
  by_cases hk : k = peer
  · subst hk
    simp [AList.lookup_erase]
  · rw [AList.lookup_erase_ne hk, if_neg hk]
    rfl

/-- One turn of the browser: either nothing happens, or the event says how the workers change. -/
structure Turn (store : PeerStore) (localPeer : PeerId) (peers : Sightings)
    (turn : Sightings × Option DiscoveryEvent) : Prop where
  own : turn.1.Own
  idle : turn.2 = none → turn.1 = peers
  event : ∀ e, turn.2 = some e → wanted store localPeer turn.1 =
    Feed.apply (writes store localPeer) (wanted store localPeer peers) e

variable {s : World}

theorem turn_resolved {now : Nat} {info : ResolvedService} (hown : s.peers.Own)
    (hsteady : Steady X store localPeer s (.resolved now info)) :
    Turn store localPeer s.peers (serviceResolved X localPeer s.peers now info) := by
  rcases serviceResolved_cases X localPeer s.peers now info with hidle | ⟨p, hp, -, hturn⟩
  · rw [hidle]
    exact ⟨hown, fun _ => rfl, fun _ he => (nomatch he)⟩
  · rw [hturn]
    refine ⟨hown.insert p, nofun, ?_⟩
    intro e he
    cases he
    have hwanted : ∀ k, wanted store localPeer (s.peers.insert p.peerId p) k =
        (sightingWrites store localPeer p k).getD (wanted store localPeer s.peers k) :=
      wanted_insert fun htrusted q hq => hsteady p q hp htrusted hq
    funext k
    rw [hwanted, Feed.apply]
    split <;> rfl

theorem turn_removed {fullname : Text} (hown : s.peers.Own) :
    Turn store localPeer s.peers (serviceRemoved s.peers fullname) := by
  rcases serviceRemoved_cases s.peers fullname with hidle | ⟨peer, seen, -, hturn⟩
  · rw [hidle]
    exact ⟨hown, fun _ => rfl, fun _ he => (nomatch he)⟩
  · rw [hturn]
    refine ⟨hown.erase peer, nofun, ?_⟩
    intro e he
    cases he
    exact wanted_erase peer seen.displayName

/-- The channel after an event was sent to the feeder. -/
theorem faithful_send {e : DiscoveryEvent} (h : Inv store localPeer s)
    (hwanted : wanted store localPeer peers =
      Feed.apply (writes store localPeer) (wanted store localPeer s.peers) e) :
    Feed.Faithful (writes store localPeer) (wanted store localPeer peers)
      (s.channel.send capacity e).unread := by
  have hfaithful := h.faithful
  unfold Channel.send
  split
  · exact hfaithful.send hwanted
  · cases hunread : s.channel.unread with
    | nil => exact Feed.Faithful.nil.send hwanted
    | cons e' unread =>
      rw [hunread] at hfaithful
      exact hfaithful.lose.send hwanted

theorem Follows.send {e : DiscoveryEvent} {view : PeerId → Option WorkerInfo}
    (held : List DiscoveryEvent) (hwanted : wanted store localPeer peers =
      Feed.apply (writes store localPeer) (wanted store localPeer s.peers) e)
    (h : Follows store localPeer s view (held ++ s.channel.unread)) :
    Follows store localPeer { s with peers := peers, channel := s.channel.send capacity e } view
      (held ++ (s.channel.send capacity e).unread) := by
  unfold Channel.send
  split
  · intro hmissed
    rw [← List.append_assoc]
    exact (h hmissed).send hwanted
  · exact nofun

theorem Inv.send {e : DiscoveryEvent} (h : Inv store localPeer s) (hstarted : s.feeder ≠ .starting)
    (hown : peers.Own) (hwanted : wanted store localPeer peers =
      Feed.apply (writes store localPeer) (wanted store localPeer s.peers) e) :
    Inv store localPeer { s with peers := peers, channel := s.channel.send capacity e } := by
  refine ⟨hown, h.sound, faithful_send h hwanted, ?_⟩
  have hok := h.feeder
  change s.feeder.Ok store localPeer _
  cases hfeeder : s.feeder with
  | starting => exact absurd hfeeder hstarted
  | waiting =>
    rw [hfeeder] at hok
    exact Follows.send [] hwanted hok
  | holding e' =>
    rw [hfeeder] at hok
    exact Follows.send [e'] hwanted hok
  | lagged => trivial
  | resyncing snapshot =>
    rw [hfeeder] at hok
    obtain ⟨old, hold, hsnapshot, hfollows⟩ := hok
    exact ⟨old, hold, hsnapshot, Follows.send [] hwanted hfollows⟩

theorem Inv.turn (h : Inv store localPeer s) {turn : Sightings × Option DiscoveryEvent}
    (hturn : Turn store localPeer s.peers turn) :
    Inv store localPeer { s with peers := turn.1, channel := s.publish capacity turn.2 } := by
  cases hevent : turn.2 with
  | none =>
    rw [hturn.idle hevent]
    exact h
  | some e =>
    by_cases hstarting : s.feeder = .starting
    · have hok := h.feeder
      rw [hstarting] at hok
      simp only [World.publish, hstarting, hok.1]
      exact ⟨hturn.own, h.sound, .nil, rfl, hok.2⟩
    · have hpublish : s.publish capacity (some e) = s.channel.send capacity e := by
        unfold World.publish
        cases hfeeder : s.feeder <;> first | rfl | exact absurd hfeeder hstarting
      rw [hpublish]
      exact h.send hstarting hturn.own (hturn.event e hevent)

/-! ### The feeder -/

theorem Inv.step {s' : World} {a : Step} (h : Inv store localPeer s)
    (hsteady : Steady X store localPeer s a)
    (hnext : (discovery X store localPeer capacity maxWorkers).next s a = some s') :
    Inv store localPeer s' := by
  have hok := h.feeder
  cases a with
  | resolved now info =>
    cases hnext
    exact h.turn (turn_resolved h.own hsteady)
  | removed fullname =>
    cases hnext
    exact h.turn (turn_removed h.own)
  | subscribe =>
    simp only [discovery] at hnext
    split at hnext
    · next hstarting =>
      cases hnext
      rw [hstarting] at hok
      refine ⟨h.own, h.sound, h.faithful, fun _ => ?_⟩
      rw [hok.1, hok.2, hsteady]
      exact fun _ => rfl
    · cases hnext
  | recv =>
    simp only [discovery] at hnext
    split at hnext
    · next hwaiting =>
      rw [hwaiting] at hok
      split at hnext
      · cases hnext
        exact ⟨h.own, h.sound, h.faithful, trivial⟩
      · next hmissed =>
        have hfaithful := h.faithful
        have hfollows := hok (not_not.1 hmissed)
        split at hnext
        · cases hnext
        · next e unread hunread =>
          cases hnext
          rw [hunread] at hfaithful hfollows
          exact ⟨h.own, h.sound, hfaithful.lose, fun _ => hfollows⟩
    · cases hnext
  | apply now =>
    simp only [discovery] at hnext
    split at hnext
    · next e hholding =>
      cases hnext
      rw [hholding] at hok
      obtain ⟨hsound, hinfo⟩ : _ ∧ (applyDiscoveryEvent store localPeer now s.pool e).info = _ :=
        applyDiscoveryEvent_spec h.sound e
      refine ⟨h.own, hsound, h.faithful, fun hmissed => ?_⟩
      rw [hinfo]
      exact (hok hmissed).read
    · cases hnext
  | snapshot order =>
    simp only [discovery] at hnext
    split at hnext
    · split at hnext
      · next horder =>
        cases hnext
        exact ⟨h.own, h.sound, h.faithful, s.peers, h.own, horder, fun _ => h.faithful.follows⟩
      · cases hnext
    · cases hnext
  | resync now =>
    simp only [discovery] at hnext
    split at hnext
    · next snapshot hresyncing =>
      cases hnext
      rw [hresyncing] at hok
      obtain ⟨old, hold, hsnapshot, hfollows⟩ := hok
      obtain ⟨hsound, hinfo⟩ :
          _ ∧ (resyncPoolFromSnapshot store localPeer now snapshot s.pool).info = _ :=
        resync_spec h.sound now.2 hold hsnapshot
      refine ⟨h.own, hsound, h.faithful, fun hmissed => ?_⟩
      rw [hinfo]
      exact hfollows hmissed
    · cases hnext

/-- **The event-driven worker pool agrees with a rebuild**, in every run in which no trusted peer that
advertised hardware is seen without it and the feeder subscribes in time, whatever the interleaving of
browser and feeder and whatever the channel has dropped: once the feeder has read everything, a rebuild
from the current sightings changes nothing, and the pool holds exactly the trusted peers, other than
this one, whose latest sighting advertises hardware, each with the values of that sighting. -/
theorem pool_eq_resync_of_steady (X : Crates) (store : PeerStore) (localPeer : PeerId)
    (capacity maxWorkers : Nat) (hroom : (trustedPeers store).length < maxWorkers)
    (steps : List Step) (s : World)
    (hrun : (discovery X store localPeer capacity maxWorkers).Path (Steady X store localPeer)
      (.initial maxWorkers) steps s) (hdone : s.Consumed) :
    (∀ now order, now < durationMax → order.Perm (snapshotPeers s.peers) →
      (resyncPoolFromSnapshot store localPeer now order s.pool).info = s.pool.info) ∧
    ∀ k w, s.pool.info k = some w ↔ k ≠ localPeer ∧ isTrusted store k = true ∧
      ∃ p, s.peers.lookup k = some p ∧ workerInfoFromSighting p = some w := by
  have hinv : Inv store localPeer s :=
    hrun.invariant (fun _ _ _ h hsteady hnext => h.step hsteady hnext) (.initial hroom)
  have hpool : s.pool.info = wanted store localPeer s.peers := by
    have hok := hinv.feeder
    rw [hdone.waiting] at hok
    have hfollows := hok hdone.missed
    rw [hdone.unread] at hfollows
    exact hfollows.eq
  constructor
  · intro now order hnow horder
    rw [(resync_spec hinv.sound hnow hinv.own horder).2, hpool]
  · intro k w
    rw [hpool, wanted]
    by_cases hk : k ≠ localPeer ∧ isTrusted store k = true
    · rw [if_pos hk, Option.bind_eq_some_iff]
      exact ⟨fun h => ⟨hk.1, hk.2, h⟩, fun h => h.2.2⟩
    · rw [if_neg hk]
      exact ⟨nofun, fun h => absurd ⟨h.1, h.2.1⟩ hk⟩

end Runs

/-! ## One trusted peer

The peer of the store is seen with hardware, and later without. -/

def seenPeer : PeerId := .fromPublicKeyBytes sampleHash (sampleKey 2)

def seenStore : PeerStore where
  inner := AList.insert seenPeer
    (.new 0 seenPeer (Hex.encode (sampleKey 2).toList) "laptop") ∅

def ownPeer : PeerId := .fromPublicKeyBytes sampleHash (sampleKey 1)

/-- An announcement, with or without the number of cores. -/
def announcement (cores : Bool) : ResolvedService :=
  .ofProperties (("peer_id", seenPeer.toHex) ::
    if cores then [("cpu_cores", "8")] else [])

def eightCores : HardwareAdvert := ⟨⟨.fin 8, 8, by decide, rfl⟩, 0, none, 0, 0, none⟩

def sighting (now : Nat) (cores : Bool) : PeerSeen :=
  ⟨seenPeer, [], [], 7001, [], if cores then some eightCores else none, none, none, now⟩

theorem parseService_announcement (now : Nat) (cores : Bool) :
    parseService .sample now (announcement cores) = some (sighting now cores) := by
  have hid : (announcement cores).property "peer_id" = some seenPeer.toHex := rfl
  unfold parseService
  rw [hid, Option.bind_some, PeerId.fromHex_toHex]
  cases cores <;> rfl

def sampleDiscovery (capacity : Nat) : Lts World Step :=
  discovery .sample seenStore ownPeer capacity 2

/-- A turn of the browser for an announcement. -/
theorem next_announcement (capacity : Nat) (s : World) (now : Nat) (cores : Bool) :
    (sampleDiscovery capacity).next s (.resolved now (announcement cores)) =
      some { s with
        peers := (resolve s.peers (sighting now cores)).1
        channel := s.publish capacity (some (resolve s.peers (sighting now cores)).2) } := by
  have hother : (sighting now cores).peerId ≠ ownPeer := by
    change seenPeer ≠ ownPeer
    decide
  simp only [sampleDiscovery, discovery, serviceResolved, parseService_announcement, if_neg hother]

theorem steady_announcement (s : World) (now : Nat) :
    Steady .sample seenStore ownPeer s (.resolved now (announcement true)) := by
  intro p q hp _ _ hnone
  rw [parseService_announcement] at hp
  cases hp
  cases hnone

/-- Two announcements on a channel with room for one: the first event is lost, the feeder rebuilds the
pool and then reads the second event. -/
theorem pool_eq_resync_of_steady_lagged :
    ∃ steps s, (sampleDiscovery 1).Path (Steady .sample seenStore ownPeer) (.initial 2) steps s ∧
      s.Consumed ∧ ∃ w, s.pool.info seenPeer = some w ∧ w.cpuCores = .fin 8 ∧
      (resyncPoolFromSnapshot seenStore ownPeer 2 (snapshotPeers s.peers) s.pool).info =
        s.pool.info := by
  have hrun : (sampleDiscovery 1).Path (Steady .sample seenStore ownPeer) (.initial 2)
      [.subscribe, .resolved 0 (announcement true), .resolved 1 (announcement true), .recv,
        .snapshot [sighting 1 true], .resync ⟨0, by decide⟩, .recv, .apply 1] _ :=
    .cons wanted_empty rfl (.cons (steady_announcement _ _) (next_announcement ..)
      (.cons (steady_announcement _ _) (next_announcement ..)
      (.cons trivial rfl (.cons trivial rfl (.cons trivial rfl (.cons trivial rfl
      (.cons trivial rfl .nil)))))))
  have hresync := pool_eq_resync_of_steady .sample seenStore ownPeer 1 2 (by decide) _ _ hrun
    ⟨rfl, rfl, rfl⟩
  exact ⟨_, _, hrun, ⟨rfl, rfl, rfl⟩, _, rfl, rfl, hresync.1 2 _ (by decide) (.refl _)⟩

/-- The peer is announced with its cores and then without: the feeder has read everything and still has
the worker, which a rebuild removes. -/
theorem pool_keeps_stale_worker :
    ∃ s w, (sampleDiscovery 16).exec (.initial 2)
        [.subscribe, .resolved 0 (announcement true), .recv, .apply 0,
          .resolved 1 (announcement false), .recv, .apply 1] = some s ∧
      s.Consumed ∧ s.pool.info seenPeer = some w ∧
      (resyncPoolFromSnapshot seenStore ownPeer 2 (snapshotPeers s.peers) s.pool).info seenPeer =
        none := by
  have hrun : (sampleDiscovery 16).Path (fun _ _ => True) (.initial 2)
      [.subscribe, .resolved 0 (announcement true), .recv, .apply 0,
        .resolved 1 (announcement false), .recv, .apply 1] _ :=
    .cons trivial rfl (.cons trivial (next_announcement ..) (.cons trivial rfl (.cons trivial rfl
      (.cons trivial (next_announcement ..) (.cons trivial rfl (.cons trivial rfl .nil))))))
  exact ⟨_, _, hrun.exec, ⟨rfl, rfl, rfl⟩, rfl, rfl⟩

end Entanglement.Daemon
