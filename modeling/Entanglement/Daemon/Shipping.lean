import Entanglement.Daemon.Feeder
import Entanglement.Scheduler.Optimal

/-!
# Where the tasks of a daemon can go

From the sightings to the frame that a dispatch sends. Whatever the feeder applies, the pool holds
adverts of trusted peers only (`Vouched.step`), also when it is full and whatever events were lost, and a
dispatch sends its one frame to a worker of the pool (`sent_to_trusted`).
-/

namespace Entanglement.Daemon

open Lib Mesh Scheduler Peers

section Pool
variable {X : Crates} {store : PeerStore} {localPeer : PeerId} {capacity maxWorkers now : Nat}
  {pool : WorkerPool}

/-- Each worker is a trusted peer, and its numbers are not poisoned. -/
def Vouched (store : PeerStore) (pool : WorkerPool) : Prop :=
  ∀ k w, pool.info k = some w → w.peerId = k ∧ isTrusted store k = true ∧ w.validate = .ok ()

theorem Vouched.remove (h : Vouched store pool) (peer : PeerId) :
    Vouched store (pool.remove peer).1 := by
  intro k w hw
  rw [WorkerPool.info_remove] at hw
  split at hw
  · cases hw
  · exact h k w hw

/-- A full pool stays as it is. -/
theorem Vouched.upsert {w : WorkerInfo} (h : Vouched store pool)
    (hw : isTrusted store w.peerId = true) : Vouched store (pool.upsert now w).1 := by
  unfold WorkerPool.upsert
  split
  · exact h
  · next hvalid =>
    split
    · exact h
    · intro k v hv
      obtain ⟨e, he, rfl⟩ := Option.map_eq_some_iff.1 hv
      rcases Map.lookup_insert_eq_some.1 he with ⟨rfl, rfl⟩ | ⟨-, he⟩
      · exact ⟨rfl, hw, hvalid⟩
      · exact h k e.1 (congrArg (Option.map Prod.fst) he)

theorem Vouched.applySighting (h : Vouched store pool) (p : PeerSeen) :
    Vouched store (applySighting store localPeer now pool p) := by
  unfold Daemon.applySighting
  split_ifs with hlocal htrusted
  · exact h
  · exact h
  · cases hinfo : workerInfoFromSighting p with
    | none => exact h
    | some w =>
      refine h.upsert ?_
      rw [(validate_of_sighting hinfo).2]
      simpa using htrusted

theorem trusted_of_desired {snapshot : List PeerSeen} {k : PeerId} {w : WorkerInfo}
    (hw : (desiredWorkers store localPeer snapshot).lookup k = some w) :
    isTrusted store w.peerId = true := by
  revert k w
  refine List.foldlRecOn (motive := fun desired : AList fun _ : PeerId => WorkerInfo =>
    ∀ {k w}, desired.lookup k = some w → isTrusted store w.peerId = true) _ _ ?_ ?_
  · intro k w hw
    cases hw
  · intro desired hdesired info hinfo k w hw
    rcases Map.lookup_insert_eq_some.1 hw with ⟨-, rfl⟩ | ⟨-, hw⟩
    · obtain ⟨p, hp, hinfo⟩ := List.mem_filterMap.1 hinfo
      rw [(validate_of_sighting hinfo).2]
      exact (of_decide_eq_true (List.mem_filter.1 hp).2).2
    · exact hdesired hw

theorem Vouched.resync (h : Vouched store pool) (snapshot : List PeerSeen) :
    Vouched store (resyncPoolFromSnapshot store localPeer now snapshot pool) := by
  refine List.foldlRecOn (motive := Vouched store) _ _ ?_ ?_
  · refine List.foldlRecOn (motive := Vouched store) _ _ h ?_
    intro pool hpool existing _
    split
    · exact hpool
    · exact hpool.remove _
  · intro pool hpool e he
    exact hpool.upsert (trusted_of_desired (AList.mem_lookup_iff.2 he))

theorem Vouched.step {s s' : World} {a : Step} (h : Vouched store s.pool)
    (hnext : (discovery X store localPeer capacity maxWorkers).next s a = some s') :
    Vouched store s'.pool := by
  cases a with
  | resolved now info => cases hnext; exact h
  | removed fullname => cases hnext; exact h
  | subscribe =>
    simp only [discovery] at hnext
    split at hnext <;> cases hnext
    exact h
  | recv =>
    simp only [discovery] at hnext
    split at hnext
    · split at hnext
      · cases hnext; exact h
      · split at hnext <;> cases hnext
        exact h
    · cases hnext
  | apply now =>
    simp only [discovery] at hnext
    split at hnext
    · next e hholding =>
      cases hnext
      cases e with
      | peerAppeared p => exact h.applySighting p
      | peerUpdated p => exact h.applySighting p
      | peerDisappeared peer name => exact h.remove peer
    · cases hnext
  | snapshot order =>
    simp only [discovery] at hnext
    split at hnext
    · split at hnext <;> cases hnext
      exact h
    · cases hnext
  | resync now =>
    simp only [discovery] at hnext
    split at hnext <;> cases hnext
    exact h.resync _

end Pool

section Dispatch
variable {blake3 : Blake3} {score : WorkerInfo → ResourceSpec → F32} {d : Dispatcher blake3}
  {now : Nat} {task : OneShotTask}

theorem worker_of_place {chosen : PlacementChoice} (hplace : d.place score now task = .ok chosen)
    (hother : chosen.peerId ≠ d.localPeerId) :
    ∃ k w, d.workers.info k = some w ∧ Meets w task.resources ∧ w.peerId = chosen.peerId := by
  have hchoose : choose score (d.workers.live d.workerTtl now) task.resources = .ok chosen := by
    unfold Dispatcher.place at hplace
    split at hplace
    · split at hplace
      · -- the fall-back is this node
        cases hplace
        exact absurd rfl hother
      · cases hplace
    · exact hplace
  obtain ⟨⟨_, w⟩, hmax, rfl⟩ := choose_eq_ok.1 hchoose
  obtain ⟨hw, heligible, -⟩ := mem_finalists.1 (maxBy_mem hmax)
  obtain ⟨e, he, rfl⟩ := List.mem_map.1 hw
  have hlookup : d.workers.inner.lookup e.1 = some e.2 :=
    AList.mem_lookup_iff.2 (List.mem_of_mem_filter he)
  exact ⟨e.1, e.2.1, congrArg (Option.map Prod.fst) hlookup, heligible.meets, rfl⟩

theorem worker_of_sent {display : Display} {w : Scheduler.World} {done : List Runtime.Execution}
    {peer : IrohPeer} {frame : Bytes}
    (h : (peer, frame) ∈ sends (d.dispatchOneShot display score w now task done).2) :
    peer.peerId blake3 ≠ d.localPeerId ∧ ∃ k worker, d.workers.info k = some worker ∧
      Meets worker task.resources ∧ worker.peerId = peer.peerId blake3 := by
  rw [Dispatcher.dispatchOneShot_eq] at h
  cases hroute : d.route score now task with
  | refuse e =>
    rw [hroute] at h
    exact absurd h List.not_mem_nil
  | here chosen =>
    simp only [hroute, Dispatcher.sends_runLocally] at h
    exact absurd h List.not_mem_nil
  | away r chosen =>
    simp only [hroute] at h
    obtain ⟨-, hplace, hother⟩ := Dispatcher.route_eq_away hroute
    rcases Dispatcher.ship_cases display r task chosen with ⟨reason, hship⟩ | ⟨addr, sent, hlookup, hship⟩
    · rw [hship] at h
      exact absurd h List.not_mem_nil
    · obtain ⟨result, heq, -⟩ := hship w
      rw [heq, sends_sent] at h
      cases List.mem_singleton.1 h
      rw [r.addresses.keyed hlookup]
      exact ⟨hother, worker_of_place hplace hother⟩

end Dispatch

/-- **Tasks go to trusted peers only**, while the store stays as it is. In whatever order browser and
feeder have worked, whatever events were lost and whatever the pool had no room for: a frame that a
dispatch sends goes to a peer that is in the store and not revoked, is not this node, and whose advert
in the pool meets the task's requirements. -/
theorem sent_to_trusted (X : Crates) (store : PeerStore) (localPeer : PeerId)
    (capacity maxWorkers : Nat) (s : World)
    (hrun : (discovery X store localPeer capacity maxWorkers).Reach s) {blake3 : Blake3}
    (d : Dispatcher blake3) (display : Display) (score : WorkerInfo → ResourceSpec → F32)
    (w : Scheduler.World) (now : Nat) (task : OneShotTask) (done : List Runtime.Execution)
    (peer : IrohPeer) (frame : Bytes)
    (hsent : (peer, frame) ∈ sends (Dispatcher.dispatchOneShot display score
      { d with workers := s.pool, localPeerId := localPeer } w now task done).2) :
    isTrusted store (peer.peerId blake3) = true ∧ peer.peerId blake3 ≠ localPeer ∧
      ∃ worker, s.pool.info (peer.peerId blake3) = some worker ∧ worker.validate = .ok () ∧
        Meets worker task.resources := by
  have hvouched : Vouched store s.pool := by
    refine hrun.invariant ?_ fun _ _ _ h hnext => Vouched.step h hnext
    rintro s rfl k w hw
    cases hw
  obtain ⟨hother, k, worker, hinfo, hmeets, hid⟩ := worker_of_sent hsent
  obtain ⟨rfl, htrusted, hvalid⟩ := hvouched k worker hinfo
  rw [hid] at hinfo htrusted
  exact ⟨htrusted, hother, worker, hinfo, hvalid, hmeets⟩

/-! The peer of `seenStore`, at an address. -/

def seenAddress : IrohPeer := ⟨sampleKey 2, "127.0.0.1:7000", []⟩

def seenDispatcher : Dispatcher sampleHash :=
  (Dispatcher.new .new ownPeer).withRemote (.new (PeerDirectory.new.insert seenAddress))

def silentWorld : Scheduler.World := ⟨Runtime.Kernel.idle, fun _ _ _ => ⟨[], .silent⟩⟩

/-- The announced peer is sent the task. -/
theorem announced_peer_trusted : ∃ s frame, (sampleDiscovery 16).Reach s ∧
    (seenAddress, frame) ∈ sends (Dispatcher.dispatchOneShot sampleDisplay (fun _ _ => .fin 1)
      { seenDispatcher with workers := s.pool, localPeerId := ownPeer } silentWorld 0
      Dispatcher.replicatedTask []).2 ∧
    isTrusted seenStore (seenAddress.peerId sampleHash) = true := by
  have hrun : (sampleDiscovery 16).Path (fun _ _ => True) (.initial 2)
      [.subscribe, .resolved 0 (announcement true), .recv, .apply 0] _ :=
    .cons trivial rfl (.cons trivial (next_announcement ..) (.cons trivial rfl (.cons trivial rfl .nil)))
  have hreach := Lts.Reach.exec (.init rfl) hrun.exec
  refine ⟨_, _, hreach, List.mem_singleton.2 rfl, ?_⟩
  exact (sent_to_trusted .sample seenStore ownPeer 16 2 _ hreach seenDispatcher sampleDisplay
    (fun _ _ => .fin 1) silentWorld 0 Dispatcher.replicatedTask [] seenAddress _
    (List.mem_singleton.2 rfl)).1

end Entanglement.Daemon
