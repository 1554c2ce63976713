import Entanglement.Broker.Broker
import Entanglement.Lib.Threads

/-!
# The broker's operations as interleaved calls

Each thread makes one call after another. A call is cut into steps at its lock acquisitions: the
registry's lock is taken exclusively for one step at a time (`registerInsert`, `unregisterRemove`),
and shared from `grantLookup` to `grantUnlock` and from `releaseLookup` to `releaseUnlock`; a thread
that wants it exclusively waits for the readers (`Shared.readers`). A plugin's own grant table is
locked within a step. Reading the clock and appending to the audit log are steps of their own; what
the clock shows comes with the step (`Input.clock`).

`step_moves` lists what a step can do (`Moves`); all invariants are proved by cases on it.
-/

namespace Entanglement.Broker

open Lib

/-! ## Calls -/

/-- A call of the broker. `grantWithBiscuit` carries the time at which it reads the clock. -/
inductive Call
  | registerPlugin (manifest : ValidatedManifest)
  | unregisterPlugin (plugin : PluginId)
  | grant (plugin : PluginId) (requested : CapabilityKind)
  | grantWithBiscuit (plugin : PluginId) (requested : CapabilityKind) (token : Bytes)
      (localPeerId : PeerId) (policy : CrossNodePolicy) (nowSecs : Int)
  | release (plugin : PluginId) (grantId : GrantId)

/-- What a call returns when it succeeds. -/
inductive Reply
  | done
  | granted (g : GrantedCapability)
  deriving DecidableEq

/-- Where a thread is in its call. -/
inductive Pc
  | idle
  | registerInsert (manifest : ValidatedManifest)
  | registerClock (manifest : ValidatedManifest)
  | unregisterRemove (plugin : PluginId)
  | unregisterDrain (plugin : PluginId) (rest : AList fun _ : GrantId => CapabilityKind)
  | grantLookup (plugin : PluginId) (requested : CapabilityKind)
  | grantCheck (plugin : PluginId) (requested : CapabilityKind)
  | grantInsert (plugin : PluginId) (requested : CapabilityKind) (grantId : GrantId)
  | grantUnlock (plugin : PluginId) (requested : CapabilityKind) (granted : Option GrantId) (at_ : Nat)
  | releaseLookup (plugin : PluginId) (grantId : GrantId)
  | releaseRemove (plugin : PluginId) (grantId : GrantId)
  | releaseUnlock (plugin : PluginId) (grantId : GrantId) (removed : Option (CapabilityKind × Nat))
  | record (event : AuditEvent) (next : Pc)
  | returned (result : Except BrokerError Reply)

/-- The rest of the call succeeds. -/
def Pc.succeeds : Pc → Bool
  | .registerClock _ => true
  | .unregisterDrain _ _ => true
  | .grantUnlock _ _ granted _ => granted.isSome
  | .releaseUnlock _ _ _ => true
  | .record _ next => next.succeeds
  | .returned result => result.isOk
  | _ => false

/-- What a step learns: the call to begin, the time, or which of the dropped grants comes next in
the iteration order of the table. -/
inductive Input
  | call (c : Call)
  | go
  | clock (at_ : Nat)
  | drain (grantId : GrantId) (at_ : Nat)

/-- What the threads share. `issued` and `pending` are history variables that no step reads: the
grant ids handed out so far, and for an id that is handed out but not yet in a table, the thread
that has it. -/
structure Shared where
  broker : Broker
  readers : List Tid
  issued : List GrantId
  pending : GrantId → Option Tid

def Shared.new (policy : BrokerPolicy) : Shared := ⟨.new policy, [], [], fun _ => none⟩

namespace Shared

/-- Replace the registry. -/
def setPlugins (g : Shared) (plugins : Registry) : Shared :=
  { g with broker := { g.broker with plugins } }

def setReaders (g : Shared) (readers : List Tid) : Shared := { g with readers }

def log (g : Shared) (e : AuditEvent) : Shared :=
  { g with broker := { g.broker with audit := g.broker.audit.record e } }

/-- `next_grant_id.fetch_add(1)` by thread `t`; the counter wraps. -/
def issue (g : Shared) (t : Tid) : Shared :=
  { g with
    broker := { g.broker with nextGrantId := g.broker.nextGrantId + 1 }
    issued := g.issued ++ [g.broker.nextGrantId]
    pending := Function.update g.pending g.broker.nextGrantId (some t) }

/-- The id is now in a table. -/
def settle (g : Shared) (id : GrantId) : Shared :=
  { g with pending := Function.update g.pending id none }

end Shared

/-! ## Steps -/

/-- The first step of a call: what it decides before it takes a lock. -/
def begin (parse : BiscuitParse) (g : Shared) : Call → Pc
  | .registerPlugin m =>
    match g.broker.policy.checkPluginLoad m.effectiveTier with
    | .error e => .returned (.error (.policy e))
    | .ok () => .registerInsert m
  | .unregisterPlugin plugin => .unregisterRemove plugin
  | .grant plugin requested => .grantLookup plugin requested
  | .grantWithBiscuit plugin requested token localPeerId policy nowSecs =>
    match checkToken parse requested token localPeerId policy nowSecs with
    | .error e => .returned (.error e)
    | .ok () => .grantLookup plugin requested
  | .release plugin id => .releaseLookup plugin id

/-- The audit record of a finished `grant`, and its result. -/
def grantResult (plugin : PluginId) (requested : CapabilityKind) (granted : Option GrantId)
    (at_ : Nat) : Pc :=
  match granted with
  | none =>
    .record (.capabilityDenied plugin (formatCap requested) "not declared in manifest" at_)
      (.returned (.error (.capabilityNotDeclared plugin (formatCap requested))))
  | some id => .record (.capabilityGranted plugin (formatCap requested) id at_)
      (.returned (.ok (.granted ⟨id, plugin, requested⟩)))

/-- The audit record of a finished `release`, if a grant was removed. -/
def releaseResult (plugin : PluginId) (id : GrantId) (removed : Option (CapabilityKind × Nat)) : Pc :=
  match removed with
  | none => .returned (.ok .done)
  | some (kind, at_) => .record (.capabilityReleased plugin (formatCap kind) id at_)
      (.returned (.ok .done))

/-- One step of thread `t`. -/
def stepPc (parse : BiscuitParse) (t : Tid) (g : Shared) : Pc → Input → Option (Shared × Pc)
  | .idle, .call c => some (g, begin parse g c)
  | .returned _, .call c => some (g, begin parse g c)
  | .registerInsert m, .go =>
    if g.readers ≠ [] then none
    else
      match g.broker.plugins.lookup m.pluginId with
      | some _ => some (g, .returned (.error (.alreadyRegistered m.pluginId)))
      | none => some (g.setPlugins (g.broker.plugins.insert m.pluginId ⟨m, ∅⟩), .registerClock m)
  | .registerClock m, .clock at_ => some (g, .record
      (.pluginRegistered m.pluginId m.declaredTier m.impliedTier m.effectiveTier at_)
      (.returned (.ok .done)))
  | .unregisterRemove plugin, .go =>
    if g.readers ≠ [] then none
    else
      match g.broker.plugins.lookup plugin with
      | none => some (g, .returned (.error (.pluginNotRegistered plugin)))
      | some r => some (g.setPlugins (g.broker.plugins.erase plugin), .unregisterDrain plugin r.grants)
  | .unregisterDrain plugin rest, .drain id at_ =>
    match rest.lookup id with
    | none => none
    | some kind => some (g, .record (.capabilityReleased plugin (formatCap kind) id at_)
        (.unregisterDrain plugin (rest.erase id)))
  | .unregisterDrain plugin rest, .clock at_ =>
    if rest.entries = [] then some (g, .record (.pluginUnregistered plugin at_) (.returned (.ok .done)))
    else none
  | .grantLookup plugin requested, .go =>
    match g.broker.plugins.lookup plugin with
    | none => some (g, .returned (.error (.pluginNotRegistered plugin)))
    | some _ => some (g.setReaders (t :: g.readers), .grantCheck plugin requested)
  | .grantCheck plugin requested, .clock at_ =>
    match g.broker.plugins.lookup plugin with
    | none => none
    | some r =>
      if requested ∈ r.manifest.capabilities then none
      else some (g, .grantUnlock plugin requested none at_)
  | .grantCheck plugin requested, .go =>
    match g.broker.plugins.lookup plugin with
    | none => none
    | some r =>
      if requested ∈ r.manifest.capabilities then
        some (g.issue t, .grantInsert plugin requested g.broker.nextGrantId)
      else none
  | .grantInsert plugin requested id, .clock at_ =>
    match g.broker.plugins.lookup plugin with
    | none => none
    | some r => some ((g.setPlugins (g.broker.plugins.insert plugin
        { r with grants := r.grants.insert id requested })).settle id,
        .grantUnlock plugin requested (some id) at_)
  | .grantUnlock plugin requested granted at_, .go =>
    some (g.setReaders (g.readers.erase t), grantResult plugin requested granted at_)
  | .releaseLookup plugin id, .go =>
    match g.broker.plugins.lookup plugin with
    | none => some (g, .returned (.error (.pluginNotRegistered plugin)))
    | some _ => some (g.setReaders (t :: g.readers), .releaseRemove plugin id)
  | .releaseRemove plugin id, .clock at_ =>
    match g.broker.plugins.lookup plugin with
    | none => none
    | some r =>
      match r.grants.lookup id with
      | none => some (g, .releaseUnlock plugin id none)
      | some kind => some (g.setPlugins (g.broker.plugins.insert plugin
          { r with grants := r.grants.erase id }), .releaseUnlock plugin id (some (kind, at_)))
  | .releaseUnlock plugin id removed, .go =>
    some (g.setReaders (g.readers.erase t), releaseResult plugin id removed)
  | .record e next, .go => some (g.log e, next)
  | _, _ => none

/-! ## What a step can do -/

/-- The moves of thread `t` from shared state `g`. -/
inductive Moves (parse : BiscuitParse) (t : Tid) (g : Shared) : Pc → Shared → Pc → Prop
  | first (c : Call) : Moves parse t g .idle g (begin parse g c)
  | again {r : Except BrokerError Reply} (c : Call) : Moves parse t g (.returned r) g (begin parse g c)
  | occupied {m : ValidatedManifest} :
      Moves parse t g (.registerInsert m) g (.returned (.error (.alreadyRegistered m.pluginId)))
  | register {m : ValidatedManifest} : g.readers = [] → g.broker.plugins.lookup m.pluginId = none →
      Moves parse t g (.registerInsert m)
        (g.setPlugins (g.broker.plugins.insert m.pluginId ⟨m, ∅⟩)) (.registerClock m)
  | registered {m : ValidatedManifest} (at_ : Nat) :
      Moves parse t g (.registerClock m) g (.record
        (.pluginRegistered m.pluginId m.declaredTier m.impliedTier m.effectiveTier at_)
        (.returned (.ok .done)))
  | unregisterMissing {plugin : PluginId} : g.broker.plugins.lookup plugin = none →
      Moves parse t g (.unregisterRemove plugin) g (.returned (.error (.pluginNotRegistered plugin)))
  | unregister {plugin : PluginId} {r : PluginRecord} : g.readers = [] →
      g.broker.plugins.lookup plugin = some r →
      Moves parse t g (.unregisterRemove plugin) (g.setPlugins (g.broker.plugins.erase plugin))
        (.unregisterDrain plugin r.grants)
  | drain {plugin : PluginId} {rest : AList fun _ : GrantId => CapabilityKind} {id : GrantId}
      {kind : CapabilityKind} (at_ : Nat) : rest.lookup id = some kind →
      Moves parse t g (.unregisterDrain plugin rest) g
        (.record (.capabilityReleased plugin (formatCap kind) id at_)
          (.unregisterDrain plugin (rest.erase id)))
  | drained {plugin : PluginId} {rest : AList fun _ : GrantId => CapabilityKind} (at_ : Nat) :
      rest.entries = [] →
      Moves parse t g (.unregisterDrain plugin rest) g
        (.record (.pluginUnregistered plugin at_) (.returned (.ok .done)))
  | grantMissing {plugin : PluginId} {requested : CapabilityKind} :
      Moves parse t g (.grantLookup plugin requested) g
        (.returned (.error (.pluginNotRegistered plugin)))
  | grantLock {plugin : PluginId} {requested : CapabilityKind} {r : PluginRecord} :
      g.broker.plugins.lookup plugin = some r →
      Moves parse t g (.grantLookup plugin requested) (g.setReaders (t :: g.readers))
        (.grantCheck plugin requested)
  | deny {plugin : PluginId} {requested : CapabilityKind} (at_ : Nat) :
      Moves parse t g (.grantCheck plugin requested) g (.grantUnlock plugin requested none at_)
  | issue {plugin : PluginId} {requested : CapabilityKind} {r : PluginRecord} :
      g.broker.plugins.lookup plugin = some r → requested ∈ r.manifest.capabilities →
      Moves parse t g (.grantCheck plugin requested) (g.issue t)
        (.grantInsert plugin requested g.broker.nextGrantId)
  | insert {plugin : PluginId} {requested : CapabilityKind} {id : GrantId} {r : PluginRecord}
      (at_ : Nat) : g.broker.plugins.lookup plugin = some r →
      Moves parse t g (.grantInsert plugin requested id)
        ((g.setPlugins (g.broker.plugins.insert plugin
          { r with grants := r.grants.insert id requested })).settle id)
        (.grantUnlock plugin requested (some id) at_)
  | grantUnlock {plugin : PluginId} {requested : CapabilityKind} {granted : Option GrantId}
      {at_ : Nat} : Moves parse t g (.grantUnlock plugin requested granted at_)
        (g.setReaders (g.readers.erase t)) (grantResult plugin requested granted at_)
  | releaseMissing {plugin : PluginId} {id : GrantId} :
      Moves parse t g (.releaseLookup plugin id) g (.returned (.error (.pluginNotRegistered plugin)))
  | releaseLock {plugin : PluginId} {id : GrantId} {r : PluginRecord} :
      g.broker.plugins.lookup plugin = some r →
      Moves parse t g (.releaseLookup plugin id) (g.setReaders (t :: g.readers))
        (.releaseRemove plugin id)
  | absent {plugin : PluginId} {id : GrantId} :
      Moves parse t g (.releaseRemove plugin id) g (.releaseUnlock plugin id none)
  | remove {plugin : PluginId} {id : GrantId} {r : PluginRecord} {kind : CapabilityKind} (at_ : Nat) :
      g.broker.plugins.lookup plugin = some r → r.grants.lookup id = some kind →
      Moves parse t g (.releaseRemove plugin id)
        (g.setPlugins (g.broker.plugins.insert plugin { r with grants := r.grants.erase id }))
        (.releaseUnlock plugin id (some (kind, at_)))
  | releaseUnlock {plugin : PluginId} {id : GrantId} {removed : Option (CapabilityKind × Nat)} :
      Moves parse t g (.releaseUnlock plugin id removed) (g.setReaders (g.readers.erase t))
        (releaseResult plugin id removed)
  | record {e : AuditEvent} {next : Pc} : Moves parse t g (.record e next) (g.log e) next

theorem step_moves {parse : BiscuitParse} {t : Tid} {g g' : Shared} {pc pc' : Pc} {i : Input}
    (h : stepPc parse t g pc i = some (g', pc')) : Moves parse t g pc g' pc' := by
  unfold stepPc at h
  split at h
  · cases h; exact .first _
  · cases h; exact .again _
  · split at h
    · cases h
    · next hr =>
      split at h
      · cases h; exact .occupied
      · next hl => cases h; exact .register (not_not.1 hr) hl
  · cases h; exact .registered _
  · split at h
    · cases h
    · next hr =>
      split at h
      · next hl => cases h; exact .unregisterMissing hl
      · next hl => cases h; exact .unregister (not_not.1 hr) hl
  · split at h
    · cases h
    · next hk => cases h; exact .drain _ hk
  · split at h
    · next he => cases h; exact .drained _ he
    · cases h
  · split at h
    · cases h; exact .grantMissing
    · next hl => cases h; exact .grantLock hl
  · split at h
    · cases h
    · split at h
      · cases h
      · cases h; exact .deny _
  · split at h
    · cases h
    · next hl =>
      split at h
      · next hm => cases h; exact .issue hl hm
      · cases h
  · split at h
    · cases h
    · next hl => cases h; exact .insert _ hl
  · cases h; exact .grantUnlock
  · split at h
    · cases h; exact .releaseMissing
    · next hl => cases h; exact .releaseLock hl
  · split at h
    · cases h
    · next hl =>
      split at h
      · cases h; exact .absent
      · next hk => cases h; exact .remove _ hl hk
  · cases h; exact .releaseUnlock
  · cases h; exact .record
  · cases h

/-- A manifest and a policy for concrete runs. -/
def sampleManifest : ValidatedManifest := ⟨.sample, .pure, .pure, .pure, [.computeCpu]⟩

def samplePolicy : BrokerPolicy := ⟨.native, false, false⟩

end Entanglement.Broker
