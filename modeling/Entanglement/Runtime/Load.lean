import Entanglement.Broker.Calls
import Entanglement.Lib.Map

/-!
# Loading and unloading plugins (`entangle-runtime`, `kernel.rs`)

Concurrent `load_plugin_from_dir` and `unload` calls on one kernel. The kernel's own map of loaded
plugins and the broker's registry are guarded by different locks; a call takes one, gives it back,
and takes the other. The calls into the broker run the broker's steps of `Broker.Calls` inside the
kernel's. What a load reads from disk, and whether verification and compilation succeed, comes with
the step (`Input`), so a load may fail at any point.
-/

namespace Entanglement.Runtime.Load

open Lib

/-- The errors of the two calls; `failed` stands for those of the package, the manifest, the
signature and the compiler, by their text. -/
inductive LoadError
  | failed (message : Text)
  | broker (e : Broker.BrokerError)
  | alreadyLoaded (plugin : PluginId)
  | notLoaded (plugin : PluginId)
  deriving DecidableEq

/-- The record of a loaded plugin, without the compiled code. -/
structure LoadedRecord where
  effectiveTier : Tier
  deriving DecidableEq

/-- Who answers for a registration. -/
inductive Owner
  | record
  | load (t : Tid)
  | unload (t : Tid)
  deriving DecidableEq

/-- What the threads share. The last three fields are history variables that no step reads: the
number of loads begun, who answers for each registration, and which load made it. -/
structure Shared where
  broker : Broker.Shared
  plugins : AList fun _ : PluginId => LoadedRecord
  loads : Nat
  owner : PluginId → Option Owner
  registrant : PluginId → Option Nat

/-- Where a thread is in its call. A load carries its number; a call into the broker carries the
place in it. -/
inductive Pc
  | idle
  | loadCheck (n : Nat) (m : Broker.ValidatedManifest)
  | loadVerify (n : Nat) (m : Broker.ValidatedManifest)
  | loadRegister (n : Nat) (m : Broker.ValidatedManifest) (b : Broker.Pc)
  | loadCompile (n : Nat) (m : Broker.ValidatedManifest)
  | rollback (n : Nat) (m : Broker.ValidatedManifest) (b : Broker.Pc) (message : Text)
  | loadInsert (n : Nat) (m : Broker.ValidatedManifest)
  | unloadRemove (plugin : PluginId)
  | unloadUnregister (plugin : PluginId) (b : Broker.Pc)
  | returned (result : Except LoadError PluginId)

/-- What a step learns: the call to begin (a load with its parsed manifest, or why there is none),
the outcome of verification or compilation, or what a step of the broker learns. -/
inductive Input
  | load (manifest : Except Text Broker.ValidatedManifest)
  | unload (plugin : PluginId)
  | outcome (r : Except Text Unit)
  | go
  | broker (i : Broker.Input)

namespace Shared

def new (policy : Broker.BrokerPolicy) : Shared := ⟨.new policy, ∅, 0, fun _ => none, fun _ => none⟩

/-- Load `n` of thread `t` has registered `id`. -/
def claim (g : Shared) (t : Tid) (n : Nat) (id : PluginId) : Shared :=
  { g with
    owner := Function.update g.owner id (some (.load t))
    registrant := Function.update g.registrant id (some n) }

def setOwner (g : Shared) (id : PluginId) (o : Option Owner) : Shared :=
  { g with owner := Function.update g.owner id o }

/-- The history of a step inside `register_plugin`. -/
def noteRegister (g : Shared) (t : Tid) (n : Nat) (id : PluginId) : Broker.Pc → Broker.Pc → Shared
  | .registerInsert _, .registerClock _ => g.claim t n id
  | _, _ => g

/-- The history of a step inside `unregister_plugin`. -/
def noteUnregister (g : Shared) (id : PluginId) : Broker.Pc → Broker.Pc → Shared
  | .unregisterRemove _, .unregisterDrain _ _ => g.setOwner id none
  | _, _ => g

end Shared

/-- A step inside a call of the broker; a call that has returned makes none. -/
def brokerStep (parse : Broker.BiscuitParse) (t : Tid) (g : Shared) (b : Broker.Pc)
    (i : Broker.Input) : Option (Shared × Broker.Pc) :=
  match b with
  | .returned _ => none
  | b => (Broker.stepPc parse t g.broker b i).map fun r => ({ g with broker := r.1 }, r.2)

/-- The first step of a call. -/
def begin (g : Shared) : Input → Option (Shared × Pc)
  | .load (.error e) => some ({ g with loads := g.loads + 1 }, .returned (.error (.failed e)))
  | .load (.ok m) => some ({ g with loads := g.loads + 1 }, .loadCheck g.loads m)
  | .unload plugin => some (g, .unloadRemove plugin)
  | _ => none

/-- One step of thread `t`. -/
def stepPc (parse : Broker.BiscuitParse) (t : Tid) (g : Shared) : Pc → Input → Option (Shared × Pc)
  | .idle, i => begin g i
  | .returned _, i => begin g i
  | .loadCheck n m, .go =>
    if (g.plugins.lookup m.pluginId).isSome then
      some (g, .returned (.error (.alreadyLoaded m.pluginId)))
    else some (g, .loadVerify n m)
  | .loadVerify _ _, .outcome (.error e) => some (g, .returned (.error (.failed e)))
  | .loadVerify n m, .outcome (.ok ()) =>
    some (g, .loadRegister n m (Broker.begin parse g.broker (.registerPlugin m)))
  | .loadRegister n m (.returned (.ok _)), .go => some (g, .loadCompile n m)
  | .loadRegister _ _ (.returned (.error e)), .go => some (g, .returned (.error (.broker e)))
  | .loadRegister n m b, .broker i =>
    (brokerStep parse t g b i).map fun r =>
      (r.1.noteRegister t n m.pluginId b r.2, .loadRegister n m r.2)
  | .loadCompile n m, .outcome (.error e) =>
    some (g, .rollback n m (Broker.begin parse g.broker (.unregisterPlugin m.pluginId)) e)
  | .loadCompile n m, .outcome (.ok ()) => some (g, .loadInsert n m)
  | .rollback _ _ (.returned _) e, .go => some (g, .returned (.error (.failed e)))
  | .rollback n m b e, .broker i =>
    (brokerStep parse t g b i).map fun r =>
      (r.1.noteUnregister m.pluginId b r.2, .rollback n m r.2 e)
  | .loadInsert _ m, .go =>
    match g.plugins.lookup m.pluginId with
    | some _ => some (g, .returned (.error (.alreadyLoaded m.pluginId)))
    | none => some ({ g with plugins := g.plugins.insert m.pluginId ⟨m.effectiveTier⟩ }.setOwner
        m.pluginId (some .record), .returned (.ok m.pluginId))
  | .unloadRemove plugin, .go =>
    match g.plugins.lookup plugin with
    | none => some (g, .returned (.error (.notLoaded plugin)))
    | some _ => some ({ g with plugins := g.plugins.erase plugin }.setOwner plugin (some (.unload t)),
        .unloadUnregister plugin (Broker.begin parse g.broker (.unregisterPlugin plugin)))
  | .unloadUnregister plugin (.returned (.ok _)), .go => some (g, .returned (.ok plugin))
  | .unloadUnregister _ (.returned (.error e)), .go => some (g, .returned (.error (.broker e)))
  | .unloadUnregister plugin b, .broker i =>
    (brokerStep parse t g b i).map fun r =>
      (r.1.noteUnregister plugin b r.2, .unloadUnregister plugin r.2)
  | _, _ => none

/-- Any number of threads that load and unload plugins, from an empty kernel and broker. -/
def kernel (parse : Broker.BiscuitParse) (policy : Broker.BrokerPolicy) : Threads Shared Pc Input where
  start g := g = .new policy
  idle := .idle
  step := stepPc parse

/-! ## What a step can do -/

/-- The moves of thread `t` from shared state `g`. -/
inductive Moves (parse : Broker.BiscuitParse) (t : Tid) (g : Shared) : Pc → Shared → Pc → Prop
  | first {g' : Shared} {pc' : Pc} (i : Input) : begin g i = some (g', pc') →
      Moves parse t g .idle g' pc'
  | again {r : Except LoadError PluginId} {g' : Shared} {pc' : Pc} (i : Input) :
      begin g i = some (g', pc') → Moves parse t g (.returned r) g' pc'
  | alreadyLoaded {n : Nat} {m : Broker.ValidatedManifest} :
      Moves parse t g (.loadCheck n m) g (.returned (.error (.alreadyLoaded m.pluginId)))
  | notLoaded {n : Nat} {m : Broker.ValidatedManifest} :
      Moves parse t g (.loadCheck n m) g (.loadVerify n m)
  | rejected {n : Nat} {m : Broker.ValidatedManifest} (e : Text) :
      Moves parse t g (.loadVerify n m) g (.returned (.error (.failed e)))
  | verified {n : Nat} {m : Broker.ValidatedManifest} : Moves parse t g (.loadVerify n m) g
      (.loadRegister n m (Broker.begin parse g.broker (.registerPlugin m)))
  | registered {n : Nat} {m : Broker.ValidatedManifest} {r : Broker.Reply} :
      Moves parse t g (.loadRegister n m (.returned (.ok r))) g (.loadCompile n m)
  | refused {n : Nat} {m : Broker.ValidatedManifest} {e : Broker.BrokerError} :
      Moves parse t g (.loadRegister n m (.returned (.error e))) g (.returned (.error (.broker e)))
  | register {n : Nat} {m : Broker.ValidatedManifest} {b b' : Broker.Pc} {gb : Broker.Shared} :
      (∀ r, b ≠ .returned r) → Broker.Moves parse t g.broker b gb b' →
      Moves parse t g (.loadRegister n m b)
        ({ g with broker := gb }.noteRegister t n m.pluginId b b') (.loadRegister n m b')
  | compileFailed {n : Nat} {m : Broker.ValidatedManifest} (e : Text) :
      Moves parse t g (.loadCompile n m) g (.rollback n m (.unregisterRemove m.pluginId) e)
  | compiled {n : Nat} {m : Broker.ValidatedManifest} :
      Moves parse t g (.loadCompile n m) g (.loadInsert n m)
  | rolledBack {n : Nat} {m : Broker.ValidatedManifest} {r : Except Broker.BrokerError Broker.Reply}
      {e : Text} : Moves parse t g (.rollback n m (.returned r) e) g (.returned (.error (.failed e)))
  | rollback {n : Nat} {m : Broker.ValidatedManifest} {b b' : Broker.Pc} {e : Text}
      {gb : Broker.Shared} : (∀ r, b ≠ .returned r) → Broker.Moves parse t g.broker b gb b' →
      Moves parse t g (.rollback n m b e)
        ({ g with broker := gb }.noteUnregister m.pluginId b b') (.rollback n m b' e)
  | occupied {n : Nat} {m : Broker.ValidatedManifest} {r : LoadedRecord} :
      g.plugins.lookup m.pluginId = some r →
      Moves parse t g (.loadInsert n m) g (.returned (.error (.alreadyLoaded m.pluginId)))
  | insert {n : Nat} {m : Broker.ValidatedManifest} : g.plugins.lookup m.pluginId = none →
      Moves parse t g (.loadInsert n m)
        ({ g with plugins := g.plugins.insert m.pluginId ⟨m.effectiveTier⟩ }.setOwner m.pluginId
          (some .record)) (.returned (.ok m.pluginId))
  | missing {plugin : PluginId} :
      Moves parse t g (.unloadRemove plugin) g (.returned (.error (.notLoaded plugin)))
  | remove {plugin : PluginId} {r : LoadedRecord} : g.plugins.lookup plugin = some r →
      Moves parse t g (.unloadRemove plugin)
        ({ g with plugins := g.plugins.erase plugin }.setOwner plugin (some (.unload t)))
        (.unloadUnregister plugin (.unregisterRemove plugin))
  | unloaded {plugin : PluginId} {r : Broker.Reply} :
      Moves parse t g (.unloadUnregister plugin (.returned (.ok r))) g (.returned (.ok plugin))
  | unloadFailed {plugin : PluginId} {e : Broker.BrokerError} :
      Moves parse t g (.unloadUnregister plugin (.returned (.error e))) g
        (.returned (.error (.broker e)))
  | unregister {plugin : PluginId} {b b' : Broker.Pc} {gb : Broker.Shared} :
      (∀ r, b ≠ .returned r) → Broker.Moves parse t g.broker b gb b' →
      Moves parse t g (.unloadUnregister plugin b)
        ({ g with broker := gb }.noteUnregister plugin b b') (.unloadUnregister plugin b')

theorem brokerStep_moves {parse : Broker.BiscuitParse} {t : Tid} {g g' : Shared} {b b' : Broker.Pc}
    {i : Broker.Input} (h : brokerStep parse t g b i = some (g', b')) :
    ∃ gb, g' = { g with broker := gb } ∧ (∀ r, b ≠ .returned r) ∧
      Broker.Moves parse t g.broker b gb b' := by
  unfold brokerStep at h
  split at h
  · cases h
  · next hne =>
    obtain ⟨r, hr, heq⟩ := Option.map_eq_some_iff.1 h
    cases heq
    exact ⟨r.1, rfl, hne, Broker.step_moves hr⟩

theorem step_moves {parse : Broker.BiscuitParse} {t : Tid} {g g' : Shared} {pc pc' : Pc} {i : Input}
    (h : stepPc parse t g pc i = some (g', pc')) : Moves parse t g pc g' pc' := by
  unfold stepPc at h
  split at h
  · exact .first _ h
  · exact .again _ h
  · split at h
    · cases h; exact .alreadyLoaded
    · cases h; exact .notLoaded
  · cases h; exact .rejected _
  · cases h; exact .verified
  · cases h; exact .registered
  · cases h; exact .refused
  · obtain ⟨r, hr, heq⟩ := Option.map_eq_some_iff.1 h
    obtain ⟨gb, hg, hne, hm⟩ := brokerStep_moves hr
    cases heq
    rw [hg]
    exact .register hne hm
  · cases h; exact .compileFailed _
  · cases h; exact .compiled
  · cases h; exact .rolledBack
  · obtain ⟨r, hr, heq⟩ := Option.map_eq_some_iff.1 h
    obtain ⟨gb, hg, hne, hm⟩ := brokerStep_moves hr
    cases heq
    rw [hg]
    exact .rollback hne hm
  · split at h
    · next hl => cases h; exact .occupied hl
    · next hl => cases h; exact .insert hl
  · split at h
    · cases h; exact .missing
    · next hl => cases h; exact .remove hl
  · cases h; exact .unloaded
  · cases h; exact .unloadFailed
  · obtain ⟨r, hr, heq⟩ := Option.map_eq_some_iff.1 h
    obtain ⟨gb, hg, hne, hm⟩ := brokerStep_moves hr
    cases heq
    rw [hg]
    exact .unregister hne hm
  · cases h

end Entanglement.Runtime.Load
