import Entanglement.Types.Task
import Mathlib.Data.List.AList

/-!
# Worker adverts and placement (`entangle-scheduler`, `worker.rs`, `placement.rs`)

`choose` picks, among the workers that meet every hard requirement, one of the highest finite score,
the smallest peer id on a tie. The score is rounded floating-point arithmetic and is left as a
parameter of the model.
-/

namespace Entanglement.Scheduler

open Lib

structure WorkerInfo where
  peerId : PeerId
  displayName : Text
  cpuCores : F32
  memoryBytes : UInt64
  gpu : Option GpuRequirement
  npu : Option NpuRequirement
  networkBandwidthBps : UInt64
  rttMs : UInt32
  load : F32
  cost : F32
  deriving DecidableEq

/-- The pool: for each known peer its advert and the time of its last update. -/
structure WorkerPool where
  inner : AList fun _ : PeerId => WorkerInfo × Nat
  maxWorkers : Nat

/-- `Duration::MAX`, in nanoseconds. -/
def durationMax : Nat := (2 ^ 64 - 1) * 1000000000 + 999999999

/-- The workers whose last update is less than `ttl` ago. -/
def WorkerPool.live (pool : WorkerPool) (ttl now : Nat) : List WorkerInfo :=
  (pool.inner.entries.filter fun e => decide (now - e.2.2 < ttl)).map fun e => e.2.1

/-- What the text of `PlacementChoice::reason` is made of. -/
inductive PlacementReason
  | fit (worker : WorkerInfo)
  | noWorkers
  deriving DecidableEq

structure PlacementChoice where
  peerId : PeerId
  score : F32
  reason : PlacementReason
  deriving DecidableEq

/-- `noMatch` carries what its text is made of: whether all scores were non-finite, and the spec. -/
inductive PlacementError
  | noWorkers
  | noMatch (allNonFinite : Bool) (spec : ResourceSpec)
  deriving DecidableEq

def backendMatches (have_ req : GpuBackend) : Bool := req == .any || have_ == req

/-- All hard requirements of `spec`; a NaN core count is comparable to nothing and fails. -/
def satisfies (w : WorkerInfo) (spec : ResourceSpec) : Bool :=
  (match w.cpuCores.partialCmp spec.cpuCores with
    | some .gt | some .eq => true
    | _ => false) &&
  decide (spec.memoryBytes ≤ w.memoryBytes) &&
  (match spec.gpu with
    | none => true
    | some req => match w.gpu with
      | none => false
      | some g => decide (req.vramMinBytes ≤ g.vramMinBytes) && backendMatches g.backend req.backend) &&
  (match spec.npu with
    | none => true
    | some req => match w.npu with
      | none => false
      | some n => req.vendor.isEmpty || Text.eqIgnoreAsciiCase req.vendor n.vendor)

/-- The order of `[u8; 16]`: the first differing byte decides. -/
def comparePeer (a b : PeerId) : Ordering :=
  (a.bytes.toList.zip b.bytes.toList).foldl (fun o p => o.then (compare p.1.toNat p.2.toNat)) .eq

/-- `Iterator::max_by`: of equal elements the last one wins. -/
def maxBy {α : Type} (cmp : α → α → Ordering) : List α → Option α
  | [] => none
  | x :: xs => some (xs.foldl (fun best y => if cmp best y = .gt then best else y) x)

/-- The order in which scored candidates are compared. -/
def compareScored (a b : F32 × WorkerInfo) : Ordering :=
  (a.1.totalCmp b.1).then (comparePeer b.2.peerId a.2.peerId)

def choose (score : WorkerInfo → ResourceSpec → F32) (workers : List WorkerInfo)
    (spec : ResourceSpec) : Except PlacementError PlacementChoice :=
  if workers = [] then .error .noWorkers
  else
    let candidates := workers.filter fun w => satisfies w spec
    if candidates = [] then .error (.noMatch false spec)
    else
      let scored := candidates.map fun w => (score w spec, w)
      match maxBy compareScored (scored.filter fun p => p.1.isFinite) with
      | none => .error (.noMatch true spec)
      | some (top, worker) => .ok ⟨worker.peerId, top, .fit worker⟩

end Entanglement.Scheduler
