import Entanglement.Broker.Broker

/-!
# Registering and unregistering a plugin, one call at a time

The two calls as functions of the broker's state, for a caller that no other call interrupts. How
they interleave is the matter of `Broker.Calls`.
-/

namespace Entanglement.Broker

open Lib

/-- `Broker::register_plugin`; `at_` is the time that it reads. -/
def registerPlugin (b : Broker) (manifest : ValidatedManifest) (at_ : Nat) :
    Broker × Except BrokerError Unit :=
  match b.policy.checkPluginLoad manifest.effectiveTier with
  | .error e => (b, .error (.policy e))
  | .ok () =>
    match b.plugins.lookup manifest.pluginId with
    | some _ => (b, .error (.alreadyRegistered manifest.pluginId))
    | none =>
      ({ b with
          plugins := b.plugins.insert manifest.pluginId ⟨manifest, ∅⟩
          audit := b.audit.record (.pluginRegistered manifest.pluginId manifest.declaredTier
            manifest.impliedTier manifest.effectiveTier at_) },
        .ok ())

/-- `Broker::unregister_plugin`; `clock i` is the time that it reads as the `i`-th. -/
def unregisterPlugin (b : Broker) (plugin : PluginId) (clock : Nat → Nat) :
    Broker × Except BrokerError Unit :=
  match b.plugins.lookup plugin with
  | none => (b, .error (.pluginNotRegistered plugin))
  | some removed =>
    let released := removed.grants.entries.mapIdx fun i grant =>
      AuditEvent.capabilityReleased plugin (formatCap grant.2) grant.1 (clock i)
    ({ b with
        plugins := b.plugins.erase plugin
        audit := (released.foldl AuditLog.record b.audit).record
          (.pluginUnregistered plugin (clock released.length)) },
      .ok ())

/-- A registration that succeeds is of a plugin at or below the ceiling, and enters its manifest with
no grants. -/
theorem registerPlugin_eq_ok {b b' : Broker} {manifest : ValidatedManifest} {at_ : Nat}
    (h : b.registerPlugin manifest at_ = (b', .ok ())) :
    manifest.effectiveTier ≤ b.policy.maxTierAllowed ∧
      b'.plugins.lookup manifest.pluginId = some ⟨manifest, ∅⟩ := by
  unfold registerPlugin BrokerPolicy.checkPluginLoad at h
  by_cases htier : manifest.effectiveTier > b.policy.maxTierAllowed
  · rw [if_pos htier] at h
    cases h
  · rw [if_neg htier] at h
    cases hslot : b.plugins.lookup manifest.pluginId with
    | some r => rw [hslot] at h; cases h
    | none =>
      rw [hslot] at h
      cases h
      exact ⟨not_lt.1 htier, AList.lookup_insert _⟩

end Entanglement.Broker
