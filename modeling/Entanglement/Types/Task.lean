import Entanglement.Lib.Float
import Entanglement.Types.Ids

/-!
# Resources and tasks (`entangle-types`)
-/

namespace Entanglement

open Lib

inductive GpuBackend
  | metal
  | cuda
  | vulkan
  | rocm
  | any
  deriving DecidableEq, Repr

structure GpuRequirement where
  vramMinBytes : UInt64
  backend : GpuBackend
  deriving DecidableEq

structure NpuRequirement where
  vendor : Text
  deriving DecidableEq

/-- Resource requirements of a task; zero and `none` mean no requirement. -/
structure ResourceSpec where
  cpuCores : F32 := .fin 0
  gpu : Option GpuRequirement := none
  npu : Option NpuRequirement := none
  memoryBytes : UInt64 := 0
  networkBandwidthBps : UInt64 := 0
  deriving DecidableEq

/-- The integrity policies of a task. -/
inductive IntegrityPolicy
  | deterministic (replicas : UInt8)
  | semanticEquivalent (metric : Text) (threshold : F32)
  | trustedExecutor (allowlist : List PeerId)
  | attested (tee : Text)
  | none
  deriving DecidableEq

structure OneShotTask where
  id : ByteVec 16
  plugin : PluginId
  input : Bytes
  maxInputBytes : UInt64
  maxOutputBytes : UInt64
  resources : ResourceSpec
  integrity : IntegrityPolicy
  timeoutMs : UInt64
  deriving DecidableEq

namespace OneShotTask

/-- 16 MiB. -/
def defaultMaxInputBytes : UInt64 := 16 * 1024 * 1024

/-- 16 MiB. -/
def defaultMaxOutputBytes : UInt64 := 16 * 1024 * 1024

end OneShotTask

end Entanglement
