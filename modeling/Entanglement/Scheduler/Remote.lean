import Entanglement.Runtime.Integrity
import Entanglement.Scheduler.Placement
import Entanglement.Scheduler.Wire
import Mathlib.Data.List.AList

/-!
# Cross-node dispatch (`entangle-scheduler`, `remote.rs`)

`RemoteDispatch.dispatch` ships a task to a peer and reads its answer; `RemoteTaskServer.handle` is
the other end. The network is a function (`Network`): what the dialled peer executes and what comes
back are arbitrary. The transport authenticates the peer it dials, so the node that executes is the
one whose key was dialled.
-/

namespace Entanglement.Scheduler

open Lib Entanglement.Runtime

/-! ## Addresses -/

/-- A dialable peer. `peer_id` is always derived from the key (`IrohPeer::new`), so it is not
stored. -/
structure IrohPeer where
  publicKey : Key
  addr : Text
  extraAddrs : List Text
  deriving DecidableEq

def IrohPeer.peerId (blake3 : Blake3) (p : IrohPeer) : PeerId :=
  PeerId.fromPublicKeyBytes blake3 p.publicKey

/-- The address book: each entry is filed under its own peer id. -/
structure PeerDirectory (blake3 : Blake3) where
  inner : AList fun _ : PeerId => IrohPeer
  keyed : ∀ {id peer}, inner.lookup id = some peer → peer.peerId blake3 = id

namespace PeerDirectory

variable {blake3 : Blake3}

def new : PeerDirectory blake3 := ⟨∅, by simp⟩

def insert (dir : PeerDirectory blake3) (peer : IrohPeer) : PeerDirectory blake3 where
  inner := dir.inner.insert (peer.peerId blake3) peer
  keyed := by
    intro id found h
    by_cases hid : id = peer.peerId blake3
    · subst hid
      rw [AList.lookup_insert] at h
      cases h
      rfl
    · rw [AList.lookup_insert_ne hid] at h
      exact dir.keyed h

def lookup (dir : PeerDirectory blake3) (peer : PeerId) : Option IrohPeer := dir.inner.lookup peer

end PeerDirectory

/-! ## What the outside does -/

/-- What the transport hands back before the deadline, if anything. -/
inductive Reply
  | answered (bytes : Bytes)
  | failed (reason : Text)
  | silent

/-- A peer's reaction to a frame: the executions that its node makes for it, and the reply. -/
structure PeerAnswer where
  executions : List Execution
  reply : Reply

/-- The reaction of each peer to each frame, within a budget of nanoseconds. -/
abbrev Network := IrohPeer → Bytes → Nat → PeerAnswer

/-- What a dispatch causes: a frame sent, or an execution on some node. -/
inductive Event
  | sent (peer : IrohPeer) (frame : Bytes)
  | executed (node : PeerId) (execution : Execution)

/-! ## Client -/

inductive DispatchError
  | placement (e : PlacementError)
  | runtime (e : RuntimeError)
  | inputSizeExceeded (declared : UInt64) (actual : Nat)
  | outputSizeExceeded (declared : UInt64) (actual : Nat) (peer : Text)
  | remoteNotImplemented (peer : PeerId) (reason : PlacementReason)
  | remoteTransport (peer : PeerId) (reason : Text)
  | remoteRejected (peer : PeerId) (code : RemoteErrorCode) (message : Text)

/-- `overhead` is in nanoseconds. -/
structure RemoteDispatch (blake3 : Blake3) where
  addresses : PeerDirectory blake3
  overhead : Nat

namespace RemoteDispatch

variable {blake3 : Blake3}

def defaultOverhead : Nat := 10 * 1000000000

def new (addresses : PeerDirectory blake3) : RemoteDispatch blake3 := ⟨addresses, defaultOverhead⟩

/-- The deadline of the exchange. -/
def budget (r : RemoteDispatch blake3) (task : OneShotTask) : Nat :=
  min (task.timeoutMs.toNat * 1000000 + r.overhead) durationMax

/-- Reading the answer: the size limit is the task's own, not the peer's. -/
def readAnswer (d : Display) (task : OneShotTask) (peer : PeerId) (raw : Bytes) :
    Except DispatchError Bytes :=
  match decodeResponse raw task.maxOutputBytes with
  | .error (.outputTooLarge declared actual) =>
    .error (.outputSizeExceeded declared actual peer.toHex)
  | .error other => .error (.remoteTransport peer (other.print d))
  | .ok ⟨_, .ok output⟩ => .ok output
  | .ok ⟨_, .err code message⟩ => .error (.remoteRejected peer code message)

def dispatch (d : Display) (r : RemoteDispatch blake3) (net : Network) (task : OneShotTask)
    (peer : PeerId) : Except DispatchError Bytes × List Event :=
  match r.addresses.lookup peer with
  | none => (.error (.remoteTransport peer ("no known network address for this peer (not paired, or " ++
      "no address learned yet)")), [])
  | some addr =>
    match encodeRequest (.forTask task) with
    | .error e => (.error (.remoteTransport peer ("encoding request: " ++ e.print d)), [])
    | .ok frame =>
      let answer := net addr frame (r.budget task)
      let events := .sent addr frame :: answer.executions.map (.executed (addr.peerId blake3))
      match answer.reply with
      | .failed reason => (.error (.remoteTransport peer reason), events)
      | .silent => (.error (.remoteTransport peer ("no answer within " ++
          decimal (r.budget task / 1000000) ++ "ms (task timeout " ++
          decimal task.timeoutMs.toNat ++ "ms + " ++ decimal (r.overhead / 1000000) ++
          "ms overhead)")), events)
      | .answered raw => (readAnswer d task peer raw, events)

end RemoteDispatch

/-! ## Server -/

/-- `StaticAllowlist`. -/
def staticAllowlist (allowed : List PeerId) (peer : PeerId) : Bool := decide (peer ∈ allowed)

def maxRemoteTaskTimeoutMs : UInt64 := 5 * 60 * 1000

structure RemoteTaskServer where
  kernel : Kernel
  isAuthorized : PeerId → Bool
  localPeerId : PeerId
  maxTimeoutMs : UInt64
  maxInputBytes : UInt64
  maxOutputBytes : UInt64

namespace RemoteTaskServer

def new (kernel : Kernel) (isAuthorized : PeerId → Bool) (localPeerId : PeerId) : RemoteTaskServer where
  kernel
  isAuthorized
  localPeerId
  maxTimeoutMs := maxRemoteTaskTimeoutMs
  maxInputBytes := OneShotTask.defaultMaxInputBytes
  maxOutputBytes := OneShotTask.defaultMaxOutputBytes

def withMaxTimeoutMs (s : RemoteTaskServer) (ms : UInt64) : RemoteTaskServer :=
  { s with maxTimeoutMs := min ms maxRemoteTaskTimeoutMs }

def withMaxBytes (s : RemoteTaskServer) (input output : UInt64) : RemoteTaskServer :=
  { s with
    maxInputBytes := min input OneShotTask.defaultMaxInputBytes
    maxOutputBytes := min output OneShotTask.defaultMaxOutputBytes }

def effectiveTimeoutMs (s : RemoteTaskServer) (requested : UInt64) : UInt64 :=
  if requested < s.maxTimeoutMs then requested else s.maxTimeoutMs

def effectiveOutputCap (s : RemoteTaskServer) (requested : UInt64) : UInt64 :=
  if requested < s.maxOutputBytes then requested else s.maxOutputBytes

/-- What the node sends back, the task it handed to its kernel, if any, and the executions after it.
-/
structure Served where
  response : RemoteTaskResponse
  invoked : Option OneShotTask
  done : List Execution

def codeOf : WireError → RemoteErrorCode
  | .unsupportedVersion _ _ => .unsupportedVersion
  | .inputTooLarge _ _ => .inputTooLarge
  | .frameTooLarge _ _ => .inputTooLarge
  | .malformed _ => .malformedRequest
  | .outputTooLarge _ _ => .malformedRequest

/-- The first part of `respond`: the checks a frame passes before its task is built. -/
def acceptTask (d : Display) (semver : SemverParse) (s : RemoteTaskServer) (sender : PeerId)
    (payload : Bytes) : Except RemoteTaskResponse OneShotTask :=
  if !s.isAuthorized sender then
    .error (.err .notAuthorized "peer is not in this node's trusted peer allowlist")
  else
    match decodeRequest payload with
    | .error e => .error (.err (codeOf e) (e.print d))
    | .ok request =>
      if request.input.length > s.maxInputBytes.toNat then
        .error (.err .inputTooLarge ("input of " ++ decimal request.input.length ++
          " bytes exceeds this node's " ++ decimal s.maxInputBytes.toNat ++
          " byte limit"))
      else
        match PluginId.parse semver request.plugin with
        | .error e => .error (.err .malformedRequest ("plugin id " ++
            d.debugStr request.plugin ++ ": " ++ e.print d))
        | .ok plugin => .ok {
            id := request.taskId
            plugin
            input := request.input
            maxInputBytes := s.maxInputBytes
            maxOutputBytes := s.effectiveOutputCap request.maxOutputBytes
            resources := {}
            integrity := .none
            timeoutMs := s.effectiveTimeoutMs request.timeoutMs }

/-- The last part of `respond`: run the task, and answer. -/
def execute (blake3 : Blake3) (s : RemoteTaskServer) (task : OneShotTask) (done : List Execution) :
    Served :=
  match s.kernel.invokeWithIntegrity blake3 task s.localPeerId done with
  | (.ok output, done) =>
    if output.length > task.maxOutputBytes.toNat then
      ⟨.err .outputTooLarge ("output of " ++ decimal output.length ++
        " bytes exceeds the " ++ decimal task.maxOutputBytes.toNat ++ " byte limit"),
        some task, done⟩
    else ⟨.ok output, some task, done⟩
  | (.error (.notLoaded id), done) =>
    ⟨.err .pluginNotLoaded ("plugin " ++ id.print ++ " is not loaded on this node"),
      some task, done⟩
  | (.error e, done) => ⟨.err .execution e.print, some task, done⟩

def respond (d : Display) (semver : SemverParse) (blake3 : Blake3) (s : RemoteTaskServer)
    (sender : PeerId) (payload : Bytes) (done : List Execution) : Served :=
  match s.acceptTask d semver sender payload with
  | .error response => ⟨response, none, done⟩
  | .ok task => s.execute blake3 task done

/-- The frame sent back: when the response does not fit, an error that does. -/
def frameOf (response : RemoteTaskResponse) : Bytes :=
  match encodeResponse response with
  | .ok frame => frame
  | .error _ =>
    match encodeResponse (.err .outputTooLarge
        "response too large to transmit as a single frame") with
    | .ok frame => frame
    | .error _ => []

/-- What handling a frame does: the reply, the task handed to the kernel, and the executions. -/
structure Handled where
  reply : Bytes
  invoked : Option OneShotTask
  done : List Execution

def handle (d : Display) (semver : SemverParse) (blake3 : Blake3) (s : RemoteTaskServer)
    (sender : PeerId) (payload : Bytes) (done : List Execution) : Handled :=
  let served := s.respond d semver blake3 sender payload done
  ⟨frameOf served.response, served.invoked, served.done⟩

end RemoteTaskServer

end Entanglement.Scheduler
