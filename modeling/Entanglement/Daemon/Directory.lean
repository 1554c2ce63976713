import Entanglement.Daemon.Allowlist
import Entanglement.Mesh.NodeAddr

/-!
# The outbound address book (`entangle-bin`, `remote.rs`)

`directory_from_config` goes through the long addresses of `[scheduler] peers` and admits those whose
peer is not this node and is in the peer store without being revoked. A later entry for the same peer
replaces an earlier one. A dispatch looks the peer up and dials what it finds, so this node only ever
dials a key that the operator both wrote down and paired with (`outbound_dispatch`).
-/

namespace Entanglement.Daemon

open Lib Peers Scheduler Mesh

variable {Addr : Type} (net : SocketAddrs Addr) (blake3 : Blake3) (store : PeerStore)
  (localPeerId : PeerId)

/-- `IrohPeer::new`, as `parse_node_addr` calls it. -/
def irohPeer (node : NodeAddr Addr) : IrohPeer := ⟨node.publicKey, net.print node.addr, []⟩

/-- One round of the loop. -/
def addEntry (directory : PeerDirectory blake3) (entry : Text) : PeerDirectory blake3 :=
  match parseNodeAddr net entry with
  | .error _ => directory
  | .ok node =>
    let peer := irohPeer net node
    if peer.peerId blake3 = localPeerId then directory
    else
      match store.get (peer.peerId blake3) with
      | some p => if p.trust ≠ .revoked then directory.insert peer else directory
      | none => directory

def directoryFromConfig (peers : List Text) : PeerDirectory blake3 :=
  peers.foldl (addEntry net blake3 store localPeerId) .new

/-! ## What the directory holds -/

/-- The entry can be parsed, and its key is that of the peer `id`. -/
def Names (id : PeerId) (node : NodeAddr Addr) (entry : Text) : Prop :=
  parseNodeAddr net entry = .ok node ∧ PeerId.fromPublicKeyBytes blake3 node.publicKey = id

/-- A peer other than this node that the store holds and that is not revoked. -/
def Dialable (id : PeerId) : Prop :=
  id ≠ localPeerId ∧ ∃ p, store.get id = some p ∧ p.trust ≠ .revoked

/-- `peer` is made of the last entry for `id`. -/
def LastEntry (peers : List Text) (id : PeerId) (peer : IrohPeer) : Prop :=
  Since (fun entry => ∃ node, Names net blake3 id node entry ∧ peer = irohPeer net node)
    (fun entry => ∃ node, Names net blake3 id node entry) peers

variable {net blake3 store localPeerId} {directory : PeerDirectory blake3} {id : PeerId}
  {peer : IrohPeer}

theorem lookup_insert {found : IrohPeer} :
    (directory.insert peer).lookup id = some found ↔
      (id = peer.peerId blake3 ∧ found = peer) ∨
        (id ≠ peer.peerId blake3 ∧ directory.lookup id = some found) :=
  Map.lookup_insert_eq_some

variable (net store localPeerId) in
/-- The effect of an entry: it is the new one of a dialable peer, or changes nothing. -/
theorem addEntry_cases (directory : PeerDirectory blake3) (entry : Text) :
    (∃ id node, Names net blake3 id node entry ∧ Dialable store localPeerId id ∧
      addEntry net blake3 store localPeerId directory entry = directory.insert (irohPeer net node)) ∨
    ((∀ id node, Names net blake3 id node entry → ¬ Dialable store localPeerId id) ∧
      addEntry net blake3 store localPeerId directory entry = directory) := by
  unfold addEntry
  cases hparse : parseNodeAddr net entry with
  | error e =>
    refine .inr ⟨?_, rfl⟩
    rintro id node ⟨hnode, -⟩
    rw [hparse] at hnode
    cases hnode
  | ok node =>
    -- the peer id of `irohPeer net node` is by definition that of the key
    have hid : (irohPeer net node).peerId blake3 = PeerId.fromPublicKeyBytes blake3 node.publicKey := rfl
    have honly (h : ¬ Dialable store localPeerId (PeerId.fromPublicKeyBytes blake3 node.publicKey)) :
        ∀ id other, Names net blake3 id other entry → ¬ Dialable store localPeerId id := by
      rintro id other ⟨hother, rfl⟩
      rw [hparse] at hother
      cases hother
      exact h
    simp only [hid]
    split
    · rename_i hlocal
      exact .inr ⟨honly fun h => h.1 hlocal, rfl⟩
    · rename_i hlocal
      split
      · rename_i p hp
        split
        · rename_i htrust
          exact .inl ⟨_, node, ⟨hparse, rfl⟩, ⟨hlocal, p, hp, htrust⟩, rfl⟩
        · rename_i htrust
          refine .inr ⟨honly ?_, rfl⟩
          rintro ⟨-, q, hq, hqtrust⟩
          rw [hp] at hq
          cases hq
          exact htrust hqtrust
      · rename_i hp
        refine .inr ⟨honly ?_, rfl⟩
        rintro ⟨-, q, hq, -⟩
        rw [hp] at hq
        cases hq

theorem lookup_addEntry_of_names {entry : Text} {node : NodeAddr Addr}
    (hnames : Names net blake3 id node entry) (hdial : Dialable store localPeerId id) :
    (addEntry net blake3 store localPeerId directory entry).lookup id = some (irohPeer net node) := by
  obtain ⟨hparse, hkey⟩ := hnames
  rcases addEntry_cases net store localPeerId directory entry with
    ⟨other, node', ⟨hparse', -⟩, -, hentry⟩ | ⟨hnone, -⟩
  · rw [hparse] at hparse'
    cases hparse'
    rw [hentry]
    exact lookup_insert.2 (.inl ⟨hkey.symm, rfl⟩)
  · exact absurd hdial (hnone id node ⟨hparse, hkey⟩)

/-- An entry for another peer, or for one that is not to be dialled, changes nothing. -/
theorem lookup_addEntry_of_not {entry : Text}
    (h : ¬ ((∃ node, Names net blake3 id node entry) ∧ Dialable store localPeerId id)) :
    (addEntry net blake3 store localPeerId directory entry).lookup id = directory.lookup id := by
  rcases addEntry_cases net store localPeerId directory entry with
    ⟨other, node, ⟨hparse, rfl⟩, hother, hentry⟩ | ⟨-, hentry⟩
  · have hid : id ≠ (irohPeer net node).peerId blake3 := by
      rintro rfl
      exact h ⟨⟨node, hparse, rfl⟩, hother⟩
    rw [hentry]
    exact AList.lookup_insert_ne hid
  · rw [hentry]

theorem lookup_addEntry {entry : Text} (hdial : Dialable store localPeerId id) :
    (addEntry net blake3 store localPeerId directory entry).lookup id = some peer ↔
      (∃ node, Names net blake3 id node entry ∧ peer = irohPeer net node) ∨
        ((¬ ∃ node, Names net blake3 id node entry) ∧ directory.lookup id = some peer) := by
  by_cases hnamed : ∃ node, Names net blake3 id node entry
  · obtain ⟨node, hnames⟩ := hnamed
    rw [lookup_addEntry_of_names hnames hdial]
    constructor
    · intro h
      exact .inl ⟨node, hnames, (Option.some.inj h).symm⟩
    · rintro (⟨node', hnames', rfl⟩ | ⟨hno, -⟩)
      · have hnode : node = node' := Except.ok.inj (hnames.1.symm.trans hnames'.1)
        rw [hnode]
      · exact absurd ⟨node, hnames⟩ hno
  · rw [lookup_addEntry_of_not fun h => hnamed h.1]
    constructor
    · exact fun h => .inr ⟨hnamed, h⟩
    · rintro (⟨node, hnames, -⟩ | ⟨-, h⟩)
      · exact absurd ⟨node, hnames⟩ hnamed
      · exact h

/-- **The directory**: the peers to be dialled that have an entry, each under its last one. -/
theorem lookup_directoryFromConfig {peers : List Text} :
    (directoryFromConfig net blake3 store localPeerId peers).lookup id = some peer ↔
      Dialable store localPeerId id ∧ LastEntry net blake3 peers id peer := by
  unfold directoryFromConfig LastEntry
  by_cases hdial : Dialable store localPeerId id
  · induction peers using List.reverseRecOn with
    | nil =>
      constructor
      · exact fun h => nomatch h
      · exact fun h => absurd h.2 not_since_nil
    | append_singleton peers entry ih =>
      rw [List.foldl_append, List.foldl_cons, List.foldl_nil, lookup_addEntry hdial, ih, since_concat]
      simp only [hdial, true_and]
  · have hnone : (peers.foldl (addEntry net blake3 store localPeerId) .new).lookup id = none := by
      induction peers using List.reverseRecOn with
      | nil => rfl
      | append_singleton peers entry ih =>
        rw [List.foldl_append, List.foldl_cons, List.foldl_nil, lookup_addEntry_of_not fun h => hdial h.2,
          ih]
    rw [hnone]
    constructor
    · exact fun h => nomatch h
    · exact fun h => absurd h.1 hdial

theorem exists_lookup_directoryFromConfig {peers : List Text} :
    (∃ peer, (directoryFromConfig net blake3 store localPeerId peers).lookup id = some peer) ↔
      Dialable store localPeerId id ∧ ∃ entry ∈ peers, ∃ node, Names net blake3 id node entry := by
  have hsince : (∃ peer, LastEntry net blake3 peers id peer) ↔
      ∃ entry ∈ peers, ∃ node, Names net blake3 id node entry := by
    unfold LastEntry
    rw [exists_since, ← since_self_iff]
    have hbegins : (fun entry => ∃ peer node, Names net blake3 id node entry ∧ peer = irohPeer net node) =
        fun entry => ∃ node, Names net blake3 id node entry :=
      funext fun entry => propext ⟨fun ⟨_, node, h, _⟩ => ⟨node, h⟩, fun ⟨node, h⟩ => ⟨_, node, h, rfl⟩⟩
    rw [hbegins]
  simp only [lookup_directoryFromConfig, exists_and_left, hsince]

/-! ## Dispatch -/

/-- A dispatch sends the encoded request to the entry of the peer, and nothing else. -/
theorem mem_dispatch_sent {d : Display} {r : RemoteDispatch blake3} {network : Network}
    {task : OneShotTask} {frame : Bytes} :
    .sent peer frame ∈ (r.dispatch d network task id).2 ↔
      r.addresses.lookup id = some peer ∧ encodeRequest (.forTask task) = .ok frame := by
  unfold RemoteDispatch.dispatch
  cases hlookup : r.addresses.lookup id with
  | none => simp
  | some addr =>
    cases hframe : encodeRequest (.forTask task) with
    | error e => simp
    | ok bytes =>
      have hevents : ∀ executions : List Runtime.Execution,
          Event.sent peer frame ∈ Event.sent addr bytes ::
              executions.map (Event.executed (addr.peerId blake3)) ↔
            some addr = some peer ∧
              (Except.ok bytes : Except WireError Bytes) = Except.ok frame := by
        intro executions
        simp only [List.mem_cons, Event.sent.injEq, List.mem_map, reduceCtorEq, and_false,
          exists_false, or_false, Option.some.injEq, Except.ok.injEq]
        constructor
        · exact fun h => ⟨h.1.symm, h.2.symm⟩
        · exact fun h => ⟨h.1.symm, h.2.symm⟩
      dsimp only
      split <;> exact hevents _

/-- **Outbound dispatch** dials the peers that the configuration names and the store trusts, each by
its last entry, and no others. -/
theorem outbound_dispatch (net : SocketAddrs Addr) (blake3 : Blake3) (peers : List Text)
    (store : PeerStore) (localPeerId : PeerId) :
    (∀ id, (∃ peer, (directoryFromConfig net blake3 store localPeerId peers).lookup id = some peer) ↔
      (∃ entry ∈ peers, ∃ node, Names net blake3 id node entry) ∧ id ≠ localPeerId ∧
        ∃ p, store.get id = some p ∧ p.trust ≠ .revoked) ∧
    (∀ id peer, (directoryFromConfig net blake3 store localPeerId peers).lookup id = some peer →
      LastEntry net blake3 peers id peer) ∧
    (∀ d overhead network task id,
      ((∃ peer frame, .sent peer frame ∈ (RemoteDispatch.dispatch d
          ⟨directoryFromConfig net blake3 store localPeerId peers, overhead⟩ network task id).2) ↔
        (∃ peer, (directoryFromConfig net blake3 store localPeerId peers).lookup id = some peer) ∧
          ∃ frame, encodeRequest (.forTask task) = .ok frame) ∧
      ∀ peer frame, .sent peer frame ∈ (RemoteDispatch.dispatch d
          ⟨directoryFromConfig net blake3 store localPeerId peers, overhead⟩ network task id).2 →
        (directoryFromConfig net blake3 store localPeerId peers).lookup id = some peer ∧
          PeerId.fromPublicKeyBytes blake3 peer.publicKey = id) := by
  refine ⟨fun id => ?_, fun id peer h => (lookup_directoryFromConfig.1 h).2, ?_⟩
  · rw [exists_lookup_directoryFromConfig, and_comm]
    exact Iff.rfl
  · intro d overhead network task id
    simp only [mem_dispatch_sent]
    constructor
    · constructor
      · rintro ⟨peer, frame, hpeer, hframe⟩
        exact ⟨⟨peer, hpeer⟩, frame, hframe⟩
      · rintro ⟨⟨peer, hpeer⟩, frame, hframe⟩
        exact ⟨peer, frame, hpeer, hframe⟩
    · rintro peer frame ⟨hpeer, -⟩
      exact ⟨hpeer, PeerDirectory.keyed _ hpeer⟩

end Entanglement.Daemon
