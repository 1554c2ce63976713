import Entanglement.Scheduler.Dispatcher

/-!
# Integrity policies along the dispatch paths

`dispatchOneShot_ok` lists the ways in which a dispatch succeeds: the task went to the peer that
`shipsTo` computes, or to the local kernel. The local kernel enforces the policy; the remote path
does not look at it. `dispatchOneShot_enforces_iff` puts this together: the policy is enforced
against every behaviour of plugins and peers exactly when the task is not shipped, or its policy
asks nothing of the peer that it is shipped to.
-/

namespace Entanglement.Scheduler

open Lib Entanglement.Runtime

variable {blake3 : Blake3} {display : Display} {score : WorkerInfo → ResourceSpec → F32}

/-! ## What a successful dispatch did -/

/-- The node that produced the output of a dispatch on node `here`: the peer that the frame went to,
or the node itself when no frame was sent. -/
def producer (blake3 : Blake3) (here : PeerId) : List Event → PeerId
  | .sent peer _ :: _ => peer.peerId blake3
  | _ => here

/-- The executions that `node` made. -/
def executionsOn (node : PeerId) (events : List Event) : List Execution :=
  events.filterMap fun
    | .sent _ _ => none
    | .executed n e => if n = node then some e else none

@[simp] theorem executionsOn_executed (node : PeerId) (es : List Execution) :
    executionsOn node (es.map (.executed node)) = es := by
  simp [executionsOn, List.filterMap_map]

@[simp] theorem producer_executed (here : PeerId) (es : List Execution) :
    producer blake3 here (es.map (.executed here)) = here := by
  cases es <;> rfl

/-- The policy of the task was enforced on the node that produced the output. -/
def Enforced (blake3 : Blake3) (here : PeerId) (task : OneShotTask) (output : Bytes)
    (events : List Event) : Prop :=
  let node := producer blake3 here events
  Kernel.Honoured task node output (executionsOn node events)

namespace Dispatcher

/-- The peer that a task is shipped to, and the frame, if the remote path gets as far as sending. -/
def shipsTo (score : WorkerInfo → ResourceSpec → F32) (d : Dispatcher blake3) (now : Nat)
    (task : OneShotTask) : Option (IrohPeer × Bytes) :=
  if task.input.length > task.maxInputBytes.toNat then none
  else
    match d.place score now task, d.remote, encodeRequest (.forTask task) with
    | .ok chosen, some r, .ok frame =>
      if chosen.peerId = d.localPeerId then none
      else (r.addresses.lookup chosen.peerId).map (·, frame)
    | _, _, _ => none

variable {result : DispatchResult} {task : OneShotTask}

theorem finish_ok {node : PeerId} {chosen : PlacementChoice} {output : Bytes}
    (h : finish task node chosen output = .ok result) : result = ⟨chosen, output⟩ := by
  unfold finish at h
  split at h
  · cases h
  · cases h
    rfl

theorem runLocally_ok {d : Dispatcher blake3} {w : World} {chosen : PlacementChoice}
    {done : List Execution} {events : List Event}
    (h : d.runLocally w task chosen done = (.ok result, events)) :
    ∃ after, w.kernel.invokeWithIntegrity blake3 task d.localPeerId done = (.ok result.output, after) ∧
      events = (after.drop done.length).map (.executed d.localPeerId) := by
  unfold runLocally at h
  split at h
  · cases h
  · next output after hrun =>
    obtain ⟨hfin, rfl⟩ := Prod.mk.inj h
    cases finish_ok hfin
    exact ⟨after, hrun, rfl⟩

/-- A dispatch that succeeds remotely sent one frame and returned what the answer says. -/
theorem ship_ok {r : RemoteDispatch blake3} {w : World} {chosen : PlacementChoice}
    {events : List Event} (h : ship display r w task chosen = (.ok result, events)) :
    ∃ addr frame, r.addresses.lookup chosen.peerId = some addr ∧
      encodeRequest (.forTask task) = .ok frame ∧
      events = .sent addr frame ::
        (w.network addr frame (r.budget task)).executions.map (.executed (addr.peerId blake3)) := by
  unfold ship RemoteDispatch.dispatch at h
  cases hlook : r.addresses.lookup chosen.peerId with
  | none => simp [hlook] at h
  | some addr =>
    cases hframe : encodeRequest (.forTask task) with
    | error e => simp [hlook, hframe] at h
    | ok frame =>
      refine ⟨addr, frame, rfl, rfl, ?_⟩
      simp only [hlook, hframe] at h
      split at h
      · cases h
      · next heq =>
        obtain ⟨-, rfl⟩ := Prod.mk.inj h
        split at heq <;> exact (Prod.mk.inj heq).2.symm

/-- **The two ways to succeed**: the local kernel ran the task under its policy, or the task was
shipped. -/
theorem dispatchOneShot_ok {d : Dispatcher blake3} {w : World} {now : Nat} {done : List Execution}
    {events : List Event}
    (h : d.dispatchOneShot display score w now task done = (.ok result, events)) :
    (∃ after,
      w.kernel.invokeWithIntegrity blake3 task d.localPeerId done = (.ok result.output, after) ∧
        events = (after.drop done.length).map (.executed d.localPeerId)) ∨
    ∃ addr frame budget, d.shipsTo score now task = some (addr, frame) ∧
      events = .sent addr frame ::
        (w.network addr frame budget).executions.map (.executed (addr.peerId blake3)) := by
  unfold dispatchOneShot at h
  by_cases hsize : task.input.length > task.maxInputBytes.toNat
  · simp [hsize] at h
  · rw [if_neg hsize] at h
    cases hplace : d.place score now task with
    | error e => simp [hplace] at h
    | ok chosen =>
      simp only [hplace] at h
      by_cases hlocal : chosen.peerId = d.localPeerId
      · exact .inl (runLocally_ok (by simpa [hlocal] using h))
      · rw [if_pos hlocal] at h
        cases hremote : d.remote with
        | none =>
          simp only [hremote] at h
          split at h
          · cases h
          · exact .inl (runLocally_ok h)
        | some r =>
          simp only [hremote] at h
          obtain ⟨addr, frame, hlook, hframe, hevents⟩ := ship_ok h
          refine .inr ⟨addr, frame, r.budget task, ?_, hevents⟩
          simp [shipsTo, hsize, hplace, hremote, hframe, hlocal, hlook]

/-! ## When the policy is enforced -/

/-- The policy asks nothing more than to be shipped to `peer`. -/
def MetByShipping (task : OneShotTask) (peer : PeerId) : Prop :=
  match task.integrity with
  | .none => True
  | .deterministic replicas => replicas.toNat < 2
  | .trustedExecutor allowlist => peer ∈ allowlist
  | .semanticEquivalent _ _ => False
  | .attested _ => False

theorem honoured_of_metByShipping {peer : PeerId} (h : MetByShipping task peer) (output : Bytes)
    (new : List Execution) : Kernel.Honoured task peer output new := by
  unfold MetByShipping at h
  unfold Kernel.Honoured
  cases hp : task.integrity <;> simp only [hp] at h ⊢
  case deterministic replicas => omega
  case trustedExecutor => exact h

/-- One execution with an empty output meets no other policy. -/
theorem metByShipping_of_honoured {peer : PeerId} {e : Execution}
    (h : Kernel.Honoured task peer [] [e]) : MetByShipping task peer := by
  unfold Kernel.Honoured at h
  unfold MetByShipping
  cases hp : task.integrity <;> simp only [hp] at h ⊢
  case deterministic replicas =>
    by_contra htwo
    have hlen := congrArg List.length (h (by omega))
    simp only [List.length_cons, List.length_nil, Kernel.executions, List.length_map, List.length_replicate] at hlen
    omega
  case trustedExecutor => exact h

/-- A world in which every peer runs the plugin once, for an empty output, and says so; nothing runs
here. -/
def emptyAnswers (task : OneShotTask) : World where
  kernel := Kernel.idle
  network := fun _ _ _ =>
    ⟨[⟨task.plugin, task.input, task.timeoutMs, .ok []⟩], .answered [1, 0, 0]⟩

theorem readAnswer_empty (display : Display) (task : OneShotTask) (peer : PeerId) :
    RemoteDispatch.readAnswer display task peer [1, 0, 0] = .ok [] := by
  have hdec : decodeResponse [1, 0, 0] task.maxOutputBytes = .ok (.ok []) := by
    have h : decode takeResponse [1, 0, 0] = .ok (.ok []) := by decide
    simp [decodeResponse, h, RemoteTaskResponse.ok, bind, Except.bind, pure, Except.pure]
  unfold RemoteDispatch.readAnswer
  rw [hdec]
  rfl

/-- In that world a task that is shipped succeeds with the one execution that the peer made. -/
theorem dispatchOneShot_emptyAnswers (display : Display) {d : Dispatcher blake3} {now : Nat}
    {addr : IrohPeer} {frame : Bytes} (h : d.shipsTo score now task = some (addr, frame)) :
    ∃ chosen, d.dispatchOneShot display score (emptyAnswers task) now task [] =
      (.ok ⟨chosen, []⟩, [.sent addr frame,
        .executed (addr.peerId blake3) ⟨task.plugin, task.input, task.timeoutMs, .ok []⟩]) := by
  unfold shipsTo at h
  split at h
  · cases h
  · next hsize =>
    split at h
    · next chosen r frame' hplace hremote hframe =>
      split at h
      · cases h
      · next hlocal =>
        obtain ⟨addr', hlook, heq⟩ := Option.map_eq_some_iff.1 h
        cases heq
        refine ⟨chosen, ?_⟩
        simp [dispatchOneShot, hsize, hplace, hlocal, hremote, ship, RemoteDispatch.dispatch, hlook,
          hframe, emptyAnswers, readAnswer_empty, finish]
    · cases h

/-- **Integrity on every path**: the policy is enforced in every world exactly when the task is not
shipped, or shipped to a peer of which it asks nothing more. -/
theorem dispatchOneShot_enforces_iff (display : Display) (score : WorkerInfo → ResourceSpec → F32)
    (d : Dispatcher blake3) (now : Nat) (task : OneShotTask) :
    (∀ w : World, w.kernel.CollisionFree blake3 → ∀ done result events,
      d.dispatchOneShot display score w now task done = (.ok result, events) →
        Enforced blake3 d.localPeerId task result.output events) ↔
    ∀ addr frame, d.shipsTo score now task = some (addr, frame) →
      MetByShipping task (addr.peerId blake3) := by
  constructor
  · intro henf addr frame hship
    obtain ⟨chosen, hrun⟩ := dispatchOneShot_emptyAnswers display hship
    have hhon := henf (emptyAnswers task) Kernel.idle_collisionFree _ _ _ hrun
    exact metByShipping_of_honoured (by simpa [Enforced, producer, executionsOn] using hhon)
  · intro hmet w hk done result events hrun
    rcases dispatchOneShot_ok hrun with ⟨after, hinv, rfl⟩ | ⟨addr, frame, budget, hship, rfl⟩
    · simp only [Enforced, producer_executed, executionsOn_executed]
      exact Kernel.invokeWithIntegrity_ok hk hinv
    · exact honoured_of_metByShipping (hmet addr frame hship) _ _

/-! A task that asks for three replicas, placed on another node that runs the server of `Remote`. -/

def replicatedTask : OneShotTask where
  id := List.Vector.replicate 16 0
  plugin := PluginId.sample
  input := [1, 2, 3]
  maxInputBytes := 1024
  maxOutputBytes := 1024
  resources := {}
  integrity := .deterministic 3
  timeoutMs := 1000

def samplePeer : IrohPeer := ⟨sampleKey 2, "127.0.0.1:7000", []⟩

def sampleWorker : WorkerInfo :=
  ⟨samplePeer.peerId sampleHash, "worker", .fin 4, 1024, some ⟨16 * 1024 * 1024 * 1024, .cuda⟩,
    none, 1000, 3, .fin 0, .fin 0⟩

def sampleDispatcher : Dispatcher sampleHash :=
  (new ⟨AList.singleton sampleWorker.peerId (sampleWorker, 0), 16⟩
    (PeerId.fromPublicKeyBytes sampleHash (sampleKey 1))).withRemote
      (.new (PeerDirectory.new.insert samplePeer))

/-- Every other node serves this one, as `RemoteTaskServer.handle` does. -/
def sampleWorld : World where
  kernel := Kernel.idle
  network := fun addr frame _ =>
    let served := (RemoteTaskServer.new Kernel.echo (staticAllowlist [sampleDispatcher.localPeerId])
      (addr.peerId sampleHash)).handle sampleDisplay sampleSemver sampleHash
        sampleDispatcher.localPeerId frame []
    ⟨served.done, .answered served.reply⟩

/-- The dispatch succeeds with one execution where the policy asks for three. -/
theorem dispatchOneShot_skips_replicas :
    sampleWorld.kernel.CollisionFree sampleHash ∧
    sampleDispatcher.dispatchOneShot sampleDisplay (fun _ _ => .fin 1) sampleWorld 0 replicatedTask [] =
      (.ok ⟨⟨sampleWorker.peerId, .fin 1, .fit sampleWorker⟩, [1, 2, 3]⟩,
        [.sent samplePeer (postcardRequest (.forTask replicatedTask)),
          .executed sampleWorker.peerId ⟨PluginId.sample, [1, 2, 3], 1000, .ok [1, 2, 3]⟩]) ∧
    ¬ Enforced sampleHash sampleDispatcher.localPeerId replicatedTask [1, 2, 3]
        [.sent samplePeer (postcardRequest (.forTask replicatedTask)),
          .executed sampleWorker.peerId ⟨PluginId.sample, [1, 2, 3], 1000, .ok [1, 2, 3]⟩] := by
  refine ⟨Kernel.idle_collisionFree, rfl, ?_⟩
  intro h
  have hlen := congrArg List.length (h (by decide))
  exact absurd hlen (by decide)

end Dispatcher

end Entanglement.Scheduler
