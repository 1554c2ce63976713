import Entanglement.Types.Ids

/-!
# Tiers and capabilities (`entangle-types`)
-/

namespace Entanglement

open Lib

/-- The privilege level of a plugin, from least to most privileged. -/
inductive Tier
  | pure
  | sandboxed
  | networked
  | privileged
  | native
  deriving DecidableEq, Repr

namespace Tier

/-- The numeric value, 1 to 5. -/
def toNat : Tier → Nat
  | pure => 1
  | sandboxed => 2
  | networked => 3
  | privileged => 4
  | native => 5

theorem toNat_injective : Function.Injective toNat := by
  intro a b h
  cases a <;> cases b <;> first | rfl | cases h

instance : LinearOrder Tier := LinearOrder.lift' toNat toNat_injective

/-- `Tier::try_from`. -/
def tryFrom : Nat → Option Tier
  | 1 => some pure
  | 2 => some sandboxed
  | 3 => some networked
  | 4 => some privileged
  | 5 => some native
  | _ => none

theorem pure_le (t : Tier) : pure ≤ t := by
  cases t <;> decide

end Tier

inductive StorageScope
  | plugin
  | shared
  deriving DecidableEq, Repr

inductive ShareMode
  | ro
  | rw
  | rwScoped
  deriving DecidableEq, Repr

inductive CapabilityKind
  | computeCpu
  | computeGpu
  | computeNpu
  | storageLocal (scope : StorageScope)
  | storageShare (name : Text) (mode : ShareMode)
  | netLan
  | netWan
  | meshPeer
  | agentInvoke
  | hostDockerSocket
  | custom (s : Text)
  deriving DecidableEq

/-- The least tier that a plugin must declare to be granted the capability. -/
def CapabilityKind.minTier : CapabilityKind → Tier
  | computeCpu => .sandboxed
  | computeGpu => .networked
  | computeNpu => .networked
  | storageLocal .plugin => .pure
  | storageLocal .shared => .sandboxed
  | storageShare _ _ => .privileged
  | netLan => .networked
  | netWan => .networked
  | meshPeer => .privileged
  | agentInvoke => .sandboxed
  | hostDockerSocket => .native
  | custom _ => .pure

end Entanglement
