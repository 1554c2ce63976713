import Entanglement.Peers.Store
import Entanglement.Scheduler.Serving

/-!
# The daemon's allowlist (`entangle-bin`, `remote.rs`)

The daemon lets a peer push tasks when the peer store holds an entry for it that is not revoked. An
observer passes that test, although its level does not allow it to push tasks:
`handle_invoked_trusted_iff` says exactly when a frame that reaches the kernel comes from a peer
whose level allows it.
-/

namespace Entanglement.Daemon

open Lib Peers Scheduler

/-- `PeerStoreAllowlist::is_authorized`. -/
def isAuthorized (store : PeerStore) (peer : PeerId) : Bool :=
  match store.get peer with
  | some p => decide (p.trust ≠ .revoked)
  | none => false

/-- The server that the daemon runs: the allowlist is its peer store. -/
def taskServer (store : PeerStore) (s : RemoteTaskServer) : RemoteTaskServer :=
  { s with isAuthorized := isAuthorized store }

/-- The store holds an entry for the peer whose level allows it to push tasks. -/
def MayPushTasks (store : PeerStore) (peer : PeerId) : Prop :=
  ∃ p, store.get peer = some p ∧ p.trust.canPushTasks

/-- The frame passes the checks that follow the allowlist: it decodes, its input is within the
node's limit, and its plugin id parses. -/
def Acceptable (semver : SemverParse) (s : RemoteTaskServer) (payload : Bytes) : Prop :=
  ∃ request plugin, decodeRequest payload = .ok request ∧
    request.input.length ≤ s.maxInputBytes.toNat ∧ PluginId.parse semver request.plugin = .ok plugin

variable {display : Display} {semver : SemverParse} {blake3 : Blake3}

/-- The server reaches its kernel for the acceptable frames of the peers it authorises. -/
theorem handle_invoked_iff (s : RemoteTaskServer) (sender : PeerId) (payload : Bytes)
    (done : List Runtime.Execution) :
    (s.handle display semver blake3 sender payload done).invoked.isSome ↔
      s.isAuthorized sender ∧ Acceptable semver s payload := by
  unfold RemoteTaskServer.handle RemoteTaskServer.respond RemoteTaskServer.acceptTask Acceptable
  by_cases hauth : s.isAuthorized sender
  · cases hdec : decodeRequest payload with
    | error e => simp [hauth]
    | ok request =>
      by_cases hsize : request.input.length > s.maxInputBytes.toNat
      · simp [hauth, hsize]
      · cases hid : PluginId.parse semver request.plugin with
        | error e => simp [hauth, hsize, hid]
        | ok plugin =>
          have hle : request.input.length ≤ s.maxInputBytes.toNat := Nat.le_of_not_gt hsize
          simp [hauth, hid, hle, Nat.not_lt.2 hle, (RemoteTaskServer.execute_spec blake3 _ _ _).1]
  · simp [hauth]

theorem isAuthorized_iff {store : PeerStore} {peer : PeerId} :
    isAuthorized store peer ↔ ∃ p, store.get peer = some p ∧ p.trust ≠ .revoked := by
  unfold isAuthorized
  cases store.get peer <;> simp

/-- **Who can make the node run a plugin**: a frame that reaches the kernel comes from a peer whose
level allows it to push tasks, exactly when the sender is no observer or the frame is refused for
another reason. -/
theorem handle_invoked_trusted_iff (display : Display) (semver : SemverParse) (blake3 : Blake3)
    (store : PeerStore) (s : RemoteTaskServer) (sender : PeerId) (payload : Bytes)
    (done : List Runtime.Execution) :
    (((taskServer store s).handle display semver blake3 sender payload done).invoked.isSome →
        MayPushTasks store sender) ↔
      (∀ p, store.get sender = some p → p.trust ≠ .observer) ∨ ¬ Acceptable semver s payload := by
  rw [handle_invoked_iff]
  have hauth : (taskServer store s).isAuthorized sender ↔
      ∃ p, store.get sender = some p ∧ p.trust ≠ .revoked := isAuthorized_iff
  have hacc : Acceptable semver (taskServer store s) payload ↔ Acceptable semver s payload := Iff.rfl
  rw [hauth, hacc]
  constructor
  · intro h
    by_cases hok : Acceptable semver s payload
    · left
      intro p hp hobs
      obtain ⟨q, hq, hpush⟩ := h ⟨⟨p, hp, by simp [hobs]⟩, hok⟩
      rw [hp] at hq
      cases hq
      rw [hobs] at hpush
      cases hpush
    · exact .inr hok
  · rintro hcond ⟨⟨p, hp, hrev⟩, hok⟩
    refine ⟨p, hp, ?_⟩
    have hobs := hcond.resolve_right (not_not_intro hok) p hp
    cases htrust : p.trust with
    | trusted => rfl
    | observer => exact absurd htrust hobs
    | revoked => exact absurd htrust hrev

/-! A store with one observer, and a well-formed frame. -/

def observerId : PeerId := PeerId.fromPublicKeyBytes sampleHash (sampleKey 2)

def observerStore : PeerStore where
  inner := AList.singleton observerId
    ⟨observerId, Hex.encode (sampleKey 2).toList, "tablet", .observer, 0, none, []⟩

def sampleServer : RemoteTaskServer :=
  .new .echo (fun _ => false) (PeerId.fromPublicKeyBytes sampleHash (sampleKey 1))

def samplePayload : Bytes :=
  postcardRequest
    ⟨wireVersion, List.Vector.replicate 16 0, PluginId.sample.print, [1, 2, 3], 1000, 64, 64⟩

/-- The observer's task is executed. -/
theorem handle_serves_observer :
    (((taskServer observerStore sampleServer).handle sampleDisplay sampleSemver sampleHash observerId
      samplePayload []).done = [⟨PluginId.sample, [1, 2, 3], 1000, .ok [1, 2, 3]⟩]) ∧
    ((taskServer observerStore sampleServer).handle sampleDisplay sampleSemver sampleHash observerId
      samplePayload []).invoked.isSome ∧
    ¬ MayPushTasks observerStore observerId := by
  refine ⟨rfl, rfl, ?_⟩
  rintro ⟨p, hp, hpush⟩
  cases hp
  cases hpush

end Entanglement.Daemon
