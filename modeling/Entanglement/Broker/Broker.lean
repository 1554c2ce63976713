import Entanglement.Biscuits.Verifier
import Entanglement.Types.Capability
import Mathlib.Data.List.AList

/-!
# The capability broker's data (`entangle-broker`)

The registry maps a plugin to its manifest and the table of its outstanding grants; policy and audit
log stand beside it. The operations take several locks and are modelled in `Broker.Calls`; the parts
of them that touch no lock are here.
-/

namespace Entanglement

namespace Broker

open Lib

/-! ## Policy and errors -/

structure BrokerPolicy where
  maxTierAllowed : Tier
  multiNode : Bool
  peerAllowlistPopulated : Bool
  deriving DecidableEq

inductive PolicyError
  | tierAboveCeiling (plugin ceiling : Tier)
  deriving DecidableEq

def BrokerPolicy.checkPluginLoad (policy : BrokerPolicy) (effectiveTier : Tier) :
    Except PolicyError Unit :=
  if effectiveTier > policy.maxTierAllowed then
    .error (.tierAboveCeiling effectiveTier policy.maxTierAllowed)
  else .ok ()

structure CrossNodePolicy where
  trustRoots : List Key

/-- What the text of `BrokerError::BiscuitVerify` is made of. -/
inductive TokenRefusal
  | noTrustRoot
  | parse (message : Text)
  | claims (e : Biscuits.BiscuitError)
  deriving DecidableEq

inductive BrokerError
  | policy (e : PolicyError)
  | capabilityNotDeclared (plugin : PluginId) (capability : Text)
  | pluginNotRegistered (plugin : PluginId)
  | alreadyRegistered (plugin : PluginId)
  | biscuitVerify (why : TokenRefusal)
  deriving DecidableEq

/-! ## Records -/

/-- What the broker reads of a validated manifest. -/
structure ValidatedManifest where
  pluginId : PluginId
  declaredTier : Tier
  impliedTier : Tier
  effectiveTier : Tier
  capabilities : List CapabilityKind
  deriving DecidableEq

abbrev GrantId := UInt64

structure GrantedCapability where
  grantId : GrantId
  plugin : PluginId
  kind : CapabilityKind
  deriving DecidableEq

structure PluginRecord where
  manifest : ValidatedManifest
  grants : AList fun _ : GrantId => CapabilityKind
  deriving DecidableEq

/-- The registry: which plugins exist. -/
abbrev Registry := AList fun _ : PluginId => PluginRecord

/-! ## The audit log -/

/-- An audited decision; `at_` is the time it was given. -/
inductive AuditEvent
  | pluginRegistered (plugin : PluginId) (declared implied effective : Tier) (at_ : Nat)
  | pluginUnregistered (plugin : PluginId) (at_ : Nat)
  | capabilityGranted (plugin : PluginId) (capability : Text) (grantId : GrantId) (at_ : Nat)
  | capabilityDenied (plugin : PluginId) (capability reason : Text) (at_ : Nat)
  | capabilityReleased (plugin : PluginId) (capability : Text) (grantId : GrantId) (at_ : Nat)
  deriving DecidableEq

/-- The log. `dropped` is an `AtomicU64`; it would wrap after `2 ^ 64` evictions, and is counted here
without that bound. -/
structure AuditLog where
  events : List AuditEvent
  maxEvents : Nat
  dropped : Nat

namespace AuditLog

def withCapacity (maxEvents : Nat) : AuditLog := ⟨[], max maxEvents 1, 0⟩

def defaultMaxEvents : Nat := 10000

/-- Evict from the front while the log is full, then append. -/
def record (log : AuditLog) (e : AuditEvent) : AuditLog :=
  let evicted := log.events.length + 1 - log.maxEvents
  { log with events := log.events.drop evicted ++ [e], dropped := log.dropped + evicted }

end AuditLog

end Broker

/-! ## The broker -/

open Broker in
structure Broker where
  policy : BrokerPolicy
  plugins : Registry
  nextGrantId : GrantId
  audit : AuditLog

namespace Broker

open Lib

def new (policy : BrokerPolicy) : Broker where
  policy
  plugins := ∅
  nextGrantId := 1
  audit := .withCapacity AuditLog.defaultMaxEvents

/-- The grants of a plugin. -/
def snapshotGrants (b : Broker) (plugin : PluginId) : List GrantedCapability :=
  match b.plugins.lookup plugin with
  | none => []
  | some record => record.grants.entries.map fun e => ⟨e.1, plugin, e.2⟩

/-- The name of a capability in audit records and tokens. -/
def formatCap : CapabilityKind → Text
  | .computeCpu => "compute.cpu"
  | .computeGpu => "compute.gpu"
  | .computeNpu => "compute.npu"
  | .storageLocal scope => "storage.local[" ++ (match scope with
      | .plugin => "Plugin"
      | .shared => "Shared") ++ "]"
  | .storageShare name mode => "storage.share." ++ name ++ "[" ++ (match mode with
      | .ro => "Ro"
      | .rw => "Rw"
      | .rwScoped => "RwScoped") ++ "]"
  | .netLan => "net.lan"
  | .netWan => "net.wan"
  | .meshPeer => "mesh.peer"
  | .agentInvoke => "agent.invoke"
  | .hostDockerSocket => "host.docker-socket"
  | .custom s => "custom." ++ s

/-! ## Tokens -/

/-- `Biscuit::from`: the block sources of a token that verifies under a root key, or an error text.
-/
abbrev BiscuitParse := Bytes → Key → Except Text (List Text)

/-- The token under the first trust root that accepts it; otherwise the error of the last root. -/
def findBiscuit (parse : BiscuitParse) (token : Bytes) :
    TokenRefusal → List Key → Except TokenRefusal (List Text)
  | lastErr, [] => .error lastErr
  | _, root :: roots =>
    match parse token root with
    | .ok blocks => .ok blocks
    | .error e => findBiscuit parse token (.parse ("ENTANGLE-E0410: parse: " ++ e)) roots

/-- The first two steps of `grant_with_biscuit`: a trust root accepts the token, and its claims
cover the request. -/
def checkToken (parse : BiscuitParse) (requested : CapabilityKind) (token : Bytes)
    (localPeerId : PeerId) (policy : CrossNodePolicy) (nowSecs : Int) : Except BrokerError Unit :=
  match findBiscuit parse token .noTrustRoot policy.trustRoots with
  | .error why => .error (.biscuitVerify why)
  | .ok blocks =>
    match Biscuits.verify blocks ⟨nowSecs, localPeerId⟩ (formatCap requested) with
    | .error e => .error (.biscuitVerify (.claims e))
    | .ok _ => .ok ()

end Broker

end Entanglement
