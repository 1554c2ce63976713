import Entanglement.Broker.Registration
import Entanglement.Manifests.Validate
import Entanglement.Runtime.Load
import Entanglement.Signing.Artifact

/-!
# Loading a plugin package (`entangle-runtime`, `loader.rs`, `kernel.rs`)

`loadPluginFromDir` as a function of the kernel's state and the files of a package, for a call that
no other call interrupts: read, validate, verify, register, compile. What each stage has established
when it succeeds is said once (`parseManifest_eq_ok`, `verifyPackage_eq_ok`,
`loadPluginFromDir_eq_ok`), and `completes_loadPluginFromDir` says that the call is a run of the
machine of `Runtime.Load`, where calls interleave.
-/

namespace Entanglement.Runtime.Package

open Lib Signing Manifests

/-- The crates that loading relies on; `α` is what `wasmtime` makes of an artifact. -/
structure Crates (α : Type) where
  crypto : Crypto
  semver : SemverParse
  /-- `toml::from_str` for a manifest. -/
  manifestToml : Text → Except Text Manifest
  /-- `toml::from_str` for a signature bundle, before its arrays are read. -/
  bundleToml : Text → Except Text BundleFields
  /-- `Component::from_binary`, with its imports resolved. -/
  compile : Bytes → Except Text α

/-! ## Files -/

/-- What reading each file of a package directory gives. -/
structure Directory where
  artifact : Except Text Bytes
  manifest : Except Text Bytes
  signature : Except Text Bytes

@[ext] structure PluginPackage where
  bytes : Bytes
  manifestBytes : Bytes

def PluginPackage.fromDirectory (dir : Directory) : Except Text PluginPackage := do
  let bytes ← dir.artifact
  let manifestBytes ← dir.manifest
  .ok ⟨bytes, manifestBytes⟩

/-- An I/O error of the system, or one that the kernel makes of bad data. -/
inductive IoError
  | os (message : Text)
  | manifestNotUtf8
  | signatureNotUtf8
  | bundleParse (e : TomlError)
  deriving DecidableEq

inductive RuntimeError
  | io (e : IoError)
  | manifestParse (message : Text)
  | manifestValidate (e : ValidationError)
  | signing (e : VerificationError)
  | broker (e : Broker.BrokerError)
  | host (message : Text)
  | alreadyLoaded (plugin : PluginId)
  deriving DecidableEq

section Stages
variable {α : Type} (crates : Crates α)

/-! ## Stages -/

def parseManifest (bytes : Bytes) : Except RuntimeError ValidatedManifest :=
  match Text.fromUtf8 bytes with
  | none => .error (.io .manifestNotUtf8)
  | some text =>
    match crates.manifestToml text with
    | .error message => .error (.manifestParse message)
    | .ok raw =>
      match validate crates.semver raw with
      | .error e => .error (.manifestValidate e)
      | .ok manifest => .ok manifest

/-- The signature bundle in what was read from its file. -/
def readBundle (signature : Except Text Bytes) : Except RuntimeError SignatureBundle :=
  match signature with
  | .error message => .error (.io (.os message))
  | .ok bytes =>
    match Text.fromUtf8 bytes with
    | none => .error (.io .signatureNotUtf8)
    | some text =>
      match crates.bundleToml text with
      | .error message => .error (.io (.bundleParse (.document message)))
      | .ok fields =>
        match fields.read with
        | .error e => .error (.io (.bundleParse e))
        | .ok bundle => .ok bundle

/-- The `[signature]` section, if there is one, agrees with the bundle that verified. -/
def checkSection (signature : Option SignatureSection) (bundle : SignatureBundle)
    (signerFingerprint : Text) : Except VerificationError Unit :=
  match signature with
  | none => .ok ()
  | some sec =>
    if !Text.eqIgnoreAsciiCase sec.publisher signerFingerprint then
      .error (.publisherMismatch sec.publisher signerFingerprint)
    else if sec.algorithm ≠ bundle.algorithm then .error (.unsupportedAlgorithm sec.algorithm)
    else .ok ()

/-- Step 2 and step 2b: the bundle verifies, and its signer is the publisher that the manifest names.
-/
def verifyPackage (pkg : PluginPackage) (manifest : ValidatedManifest)
    (signature : Except Text Bytes) (keyring : Keyring) : Except RuntimeError Unit :=
  match readBundle crates signature with
  | .error e => .error e
  | .ok bundle =>
    match verifyArtifact crates.crypto pkg.bytes pkg.manifestBytes bundle keyring with
    | .error e => .error (.signing e)
    | .ok entry =>
      let signerFingerprint := Hex.encode entry.fingerprint.toList
      if !Text.eqIgnoreAsciiCase signerFingerprint manifest.pluginId.publisher then
        .error (.signing (.publisherMismatch manifest.pluginId.publisher signerFingerprint))
      else
        match checkSection manifest.raw.signature bundle signerFingerprint with
        | .error e => .error (.signing e)
        | .ok () => .ok ()

end Stages

/-! ## The call -/

/-- A compiled plugin. -/
structure LoadedPlugin (α : Type) where
  pre : α
  pluginId : PluginId
  effectiveTier : Tier

def LoadedPlugin.fromBytes {α : Type} (crates : Crates α) (bytes : Bytes) (pluginId : PluginId)
    (effectiveTier : Tier) : Except Text (LoadedPlugin α) :=
  (crates.compile bytes).map (⟨·, pluginId, effectiveTier⟩)

structure LoadedRecord (α : Type) where
  effectiveTier : Tier
  plugin : LoadedPlugin α

/-- The kernel, without the engine and the bus of lifecycle events. -/
structure Kernel (α : Type) where
  broker : Broker
  keyring : Keyring
  plugins : AList fun _ : PluginId => LoadedRecord α

/-- Steps 3 and 4 of a load and the bookkeeping: register, compile, enter the record. A plugin that does
not compile is unregistered again. -/
def install {α : Type} (crates : Crates α) (k : Kernel α) (pkg : PluginPackage)
    (manifest : ValidatedManifest) (clock : Nat → Nat) : Kernel α × Except RuntimeError PluginId :=
  match k.broker.registerPlugin manifest.toValidatedManifest (clock 0) with
  | (broker, .error e) => ({ k with broker }, .error (.broker e))
  | (broker, .ok ()) =>
    match LoadedPlugin.fromBytes crates pkg.bytes manifest.pluginId manifest.effectiveTier with
    | .error e =>
      let (broker, _) := broker.unregisterPlugin manifest.pluginId fun i => clock (i + 1)
      ({ k with broker }, .error (.host e))
    | .ok plugin =>
      match k.plugins.lookup manifest.pluginId with
      | some _ => ({ k with broker }, .error (.alreadyLoaded manifest.pluginId))
      | none =>
        let plugins := k.plugins.insert manifest.pluginId ⟨manifest.effectiveTier, plugin⟩
        ({ k with broker, plugins }, .ok manifest.pluginId)

/-- `Kernel::load_plugin_from_dir`; `clock i` is the time that the call reads as the `i`-th. -/
def loadPluginFromDir {α : Type} (crates : Crates α) (k : Kernel α) (dir : Directory)
    (clock : Nat → Nat) : Kernel α × Except RuntimeError PluginId :=
  match PluginPackage.fromDirectory dir with
  | .error message => (k, .error (.io (.os message)))
  | .ok pkg =>
    match parseManifest crates pkg.manifestBytes with
    | .error e => (k, .error e)
    | .ok manifest =>
      if (k.plugins.lookup manifest.pluginId).isSome then
        (k, .error (.alreadyLoaded manifest.pluginId))
      else
        match verifyPackage crates pkg manifest dir.signature k.keyring with
        | .error e => (k, .error e)
        | .ok () => install crates k pkg manifest clock

/-! ## What a successful stage has established -/

variable {manifest : ValidatedManifest} {pkg : PluginPackage} {signature : Except Text Bytes}

section Success
variable {α : Type} {crates : Crates α}

theorem parseManifest_eq_ok {bytes : Bytes} (h : parseManifest crates bytes = .ok manifest) :
    ∃ text raw, Text.fromUtf8 bytes = some text ∧ crates.manifestToml text = .ok raw ∧
      validate crates.semver raw = .ok manifest := by
  unfold parseManifest at h
  split at h
  · cases h
  · next text htext =>
    split at h
    · cases h
    · next raw hraw =>
      split at h
      · cases h
      · next manifest' hmanifest =>
        cases h
        exact ⟨text, raw, htext, hraw, hmanifest⟩

/-- The publisher that a manifest names is in lower case. -/
theorem toLower_publisher {bytes : Bytes} (h : parseManifest crates bytes = .ok manifest) :
    Text.toLower manifest.pluginId.publisher = manifest.pluginId.publisher := by
  obtain ⟨text, raw, -, -, hvalid⟩ := parseManifest_eq_ok h
  exact PluginId.toLower_publisher (validate_sound hvalid).pluginId

theorem checkSection_eq_ok {signature : Option SignatureSection} {bundle : SignatureBundle}
    {signer : Text} (h : checkSection signature bundle signer = .ok ()) :
    ∀ sec ∈ signature, Text.toLower sec.publisher = Text.toLower signer ∧
      sec.algorithm = bundle.algorithm := by
  rintro sec rfl
  unfold checkSection at h
  dsimp only at h
  split_ifs at h with hpublisher halgorithm
  refine ⟨?_, not_not.1 halgorithm⟩
  simpa [Text.eqIgnoreAsciiCase] using hpublisher

theorem verifyPackage_eq_ok {keyring : Keyring}
    (h : verifyPackage crates pkg manifest signature keyring = .ok ()) :
    ∃ bundle entry, readBundle crates signature = .ok bundle ∧
      Verified crates.crypto pkg.bytes pkg.manifestBytes bundle keyring entry ∧
      Text.toLower (Hex.encode entry.fingerprint.toList) =
        Text.toLower manifest.pluginId.publisher ∧
      checkSection manifest.raw.signature bundle (Hex.encode entry.fingerprint.toList) = .ok () := by
  unfold verifyPackage at h
  split at h
  · cases h
  · next bundle hbundle =>
    split at h
    · cases h
    · next entry hentry =>
      dsimp only at h
      split_ifs at h with hpublisher
      split at h
      · cases h
      · next hsection =>
        refine ⟨bundle, entry, hbundle, verifyArtifact_eq_ok.1 hentry, ?_, hsection⟩
        simpa [Text.eqIgnoreAsciiCase] using hpublisher

theorem fromDirectory_eq_ok {dir : Directory} (h : PluginPackage.fromDirectory dir = .ok pkg) :
    dir.artifact = .ok pkg.bytes ∧ dir.manifest = .ok pkg.manifestBytes := by
  unfold PluginPackage.fromDirectory at h
  cases hartifact : dir.artifact with
  | error e => rw [hartifact] at h; cases h
  | ok bytes =>
    cases hmanifest : dir.manifest with
    | error e => rw [hartifact, hmanifest] at h; cases h
    | ok manifestBytes =>
      rw [hartifact, hmanifest] at h
      cases h
      exact ⟨rfl, rfl⟩

/-- What `install` has done when it succeeds: the manifest is registered, at a tier that the policy
allows, and the record holds what the artifact compiles to. -/
structure Installed (crates : Crates α) (k : Kernel α) (pkg : PluginPackage)
    (manifest : ValidatedManifest) (k' : Kernel α) : Prop where
  tier : manifest.effectiveTier ≤ k.broker.policy.maxTierAllowed
  registered : k'.broker.plugins.lookup manifest.pluginId = some ⟨manifest.toValidatedManifest, ∅⟩
  compiled : ∃ code, crates.compile pkg.bytes = .ok code ∧ k'.plugins.lookup manifest.pluginId =
    some ⟨manifest.effectiveTier, code, manifest.pluginId, manifest.effectiveTier⟩

theorem install_eq_ok {k k' : Kernel α} {clock : Nat → Nat} {id : PluginId}
    (h : install crates k pkg manifest clock = (k', .ok id)) :
    manifest.pluginId = id ∧ Installed crates k pkg manifest k' := by
  unfold install LoadedPlugin.fromBytes at h
  split at h
  · cases h
  · next broker hregister =>
    obtain ⟨htier, hregistered⟩ := Broker.registerPlugin_eq_ok hregister
    cases hcode : crates.compile pkg.bytes with
    | error e => rw [hcode] at h; cases h
    | ok code =>
      rw [hcode] at h
      dsimp only [Except.map] at h
      split at h
      · cases h
      · cases h
        exact ⟨rfl, htier, hregistered, code, hcode, AList.lookup_insert _⟩

/-- A load that succeeds has passed every stage with the same package and the same manifest. -/
theorem loadPluginFromDir_eq_ok {k k' : Kernel α} {dir : Directory} {clock : Nat → Nat}
    {id : PluginId} (h : loadPluginFromDir crates k dir clock = (k', .ok id)) :
    ∃ pkg manifest, PluginPackage.fromDirectory dir = .ok pkg ∧
      parseManifest crates pkg.manifestBytes = .ok manifest ∧ manifest.pluginId = id ∧
      verifyPackage crates pkg manifest dir.signature k.keyring = .ok () ∧
      Installed crates k pkg manifest k' := by
  unfold loadPluginFromDir at h
  split at h
  · cases h
  · next pkg hpkg =>
    split at h
    · cases h
    · next manifest hmanifest =>
      split at h
      · cases h
      · split at h
        · cases h
        · next hverify =>
          obtain ⟨hid, hinstalled⟩ := install_eq_ok h
          exact ⟨pkg, manifest, hpkg, hmanifest, hid, hverify, hinstalled⟩

theorem parseManifest_utf8 {text : Text} {raw : Manifest}
    (hraw : crates.manifestToml text = .ok raw) (hvalid : validate crates.semver raw = .ok manifest) :
    parseManifest crates (Text.utf8 text) = .ok manifest := by
  unfold parseManifest
  simp only [Text.fromUtf8_utf8, hraw, hvalid]

theorem readBundle_utf8 {text : Text} {bundle : SignatureBundle}
    (h : crates.bundleToml text = .ok bundle.fields) :
    readBundle crates (.ok (Text.utf8 text)) = .ok bundle := by
  unfold readBundle
  simp only [Text.fromUtf8_utf8, h, SignatureBundle.read_fields]

/-- A package of a new plugin that passes the checks is installed. -/
theorem loadPluginFromDir_eq_install {k : Kernel α} {dir : Directory}
    (hpkg : PluginPackage.fromDirectory dir = .ok pkg)
    (hmanifest : parseManifest crates pkg.manifestBytes = .ok manifest)
    (hfresh : k.plugins.lookup manifest.pluginId = none)
    (hverify : verifyPackage crates pkg manifest dir.signature k.keyring = .ok ())
    (clock : Nat → Nat) :
    loadPluginFromDir crates k dir clock = install crates k pkg manifest clock := by
  unfold loadPluginFromDir
  simp only [hpkg, hmanifest, hfresh, hverify, Option.isSome_none, Bool.false_eq_true, ↓reduceIte]

end Success

/-! ## Refinement -/

/-- The error by which the machine of `Runtime.Load` knows a failure; `describe` is its text. -/
def RuntimeError.toLoad (describe : RuntimeError → Text) : RuntimeError → Load.LoadError
  | .broker e => .broker e
  | .alreadyLoaded plugin => .alreadyLoaded plugin
  | e => .failed (describe e)

/-- The machine's state `g` holds the kernel `k`, and nobody is in the registry. -/
structure Represents {α : Type} (k : Kernel α) (g : Load.Shared) : Prop where
  broker : g.broker.broker = k.broker
  unlocked : g.broker.readers = []
  plugins : ∀ id, g.plugins.lookup id = (k.plugins.lookup id).map fun r => ⟨r.effectiveTier⟩

theorem toLoad_of_parseManifest {α : Type} {crates : Crates α} {bytes : Bytes} {e : RuntimeError}
    (h : parseManifest crates bytes = .error e) (describe : RuntimeError → Text) :
    e.toLoad describe = .failed (describe e) := by
  unfold parseManifest at h
  split at h
  · cases h; rfl
  · split at h
    · cases h; rfl
    · split at h <;> cases h
      rfl

theorem toLoad_of_readBundle {α : Type} {crates : Crates α} {e : RuntimeError}
    (h : readBundle crates signature = .error e) (describe : RuntimeError → Text) :
    e.toLoad describe = .failed (describe e) := by
  unfold readBundle at h
  split at h
  · cases h; rfl
  · split at h
    · cases h; rfl
    · split at h
      · cases h; rfl
      · split at h <;> cases h
        rfl

theorem toLoad_of_verifyPackage {α : Type} {crates : Crates α} {keyring : Keyring}
    {e : RuntimeError} (h : verifyPackage crates pkg manifest signature keyring = .error e)
    (describe : RuntimeError → Text) : e.toLoad describe = .failed (describe e) := by
  unfold verifyPackage at h
  split at h
  · next hbundle =>
    cases h
    exact toLoad_of_readBundle hbundle describe
  · split at h
    · cases h; rfl
    · dsimp only at h
      split at h
      · cases h; rfl
      · split at h <;> cases h
        rfl

section Refinement
variable {α : Type} {crates : Crates α} {parse : Broker.BiscuitParse} {policy : Broker.BrokerPolicy}
  {t : Tid} {k : Kernel α} {g : Load.Shared}

/-- From the registration on, a call that runs alone registers as `registerPlugin` does. -/
theorem completes_register {n : Nat} {m : Broker.ValidatedManifest} (at_ : Nat)
    {Q : Load.Shared × Load.Pc → Prop} (hg : Represents k g)
    (hfail : ∀ e, k.broker.registerPlugin m at_ = (k.broker, .error e) →
      Q (g, .returned (.error (.broker e))))
    (hdone : ∀ broker g', k.broker.registerPlugin m at_ = (broker, .ok ()) →
      Represents { k with broker } g' →
      (Load.kernel parse policy).Completes t (g', .loadCompile n m) Q) :
    (Load.kernel parse policy).Completes t
      (g, .loadRegister n m (Broker.begin parse g.broker (.registerPlugin m))) Q := by
  unfold Broker.begin
  unfold Broker.registerPlugin at hfail hdone
  rw [hg.broker]
  dsimp only
  cases hpolicy : k.broker.policy.checkPluginLoad m.effectiveTier with
  | error e =>
    rw [hpolicy] at hfail
    apply Threads.Completes.step .go rfl
    exact .done (hfail _ rfl)
  | ok =>
    rw [hpolicy] at hfail hdone
    dsimp only at hfail hdone ⊢
    cases hslot : k.broker.plugins.lookup m.pluginId with
    | some r =>
      rw [hslot] at hfail
      apply Threads.Completes.step (.broker .go) (by
        simp only [Load.kernel, Load.stepPc, Load.brokerStep, Broker.stepPc, hg.unlocked, hg.broker,
          hslot]; rfl)
      apply Threads.Completes.step .go rfl
      exact .done (hfail _ rfl)
    | none =>
      rw [hslot] at hdone
      apply Threads.Completes.step (.broker .go) (by
        simp only [Load.kernel, Load.stepPc, Load.brokerStep, Broker.stepPc, hg.unlocked, hg.broker,
          hslot]; rfl)
      apply Threads.Completes.step (.broker (.clock at_)) rfl
      apply Threads.Completes.step (.broker .go) rfl
      apply Threads.Completes.step .go rfl
      refine hdone _ _ rfl ⟨?_, hg.unlocked, hg.plugins⟩
      simp only [Load.Shared.noteRegister, Load.Shared.claim, Broker.Shared.setPlugins,
        Broker.Shared.log, hg.broker]

/-- A rollback that runs alone takes the registration back as `unregisterPlugin` does. -/
theorem completes_rollback {n : Nat} {m : Broker.ValidatedManifest} {message : Text}
    (clock : Nat → Nat) {Q : Load.Shared × Load.Pc → Prop} (hg : Represents k g)
    (hfresh : k.broker.plugins.lookup m.pluginId = some ⟨m, ∅⟩)
    (hdone : ∀ g', Represents { k with broker := (k.broker.unregisterPlugin m.pluginId clock).1 } g' →
      Q (g', .returned (.error (.failed message)))) :
    (Load.kernel parse policy).Completes t
      (g, .rollback n m (.unregisterRemove m.pluginId) message) Q := by
  unfold Broker.unregisterPlugin at hdone
  rw [hfresh] at hdone
  apply Threads.Completes.step (.broker .go) (by
    simp only [Load.kernel, Load.stepPc, Load.brokerStep, Broker.stepPc, hg.unlocked, hg.broker,
      hfresh]; rfl)
  apply Threads.Completes.step (.broker (.clock (clock 0))) rfl
  apply Threads.Completes.step (.broker .go) rfl
  apply Threads.Completes.step .go rfl
  refine .done (hdone _ ⟨?_, hg.unlocked, hg.plugins⟩)
  simp only [Load.Shared.noteUnregister, Load.Shared.setOwner, Broker.Shared.setPlugins, hg.broker]
  rfl

/-- From the registration on, a call that runs alone does what `install` does. -/
theorem completes_install {n : Nat} (describe : RuntimeError → Text) (clock : Nat → Nat)
    (hg : Represents k g) (hvacant : k.plugins.lookup manifest.pluginId = none) :
    (Load.kernel parse policy).Completes t
      (g, .loadRegister n manifest.toValidatedManifest
        (Broker.begin parse g.broker (.registerPlugin manifest.toValidatedManifest)))
      fun r => Represents (install crates k pkg manifest clock).1 r.1 ∧
        r.2 = .returned ((install crates k pkg manifest clock).2.mapError
          (RuntimeError.toLoad describe)) := by
  unfold install
  apply completes_register (clock 0) hg
  · intro e hregister
    simp only [hregister]
    exact ⟨⟨hg.broker, hg.unlocked, hg.plugins⟩, rfl⟩
  · intro broker g' hregister hg'
    simp only [hregister]
    cases LoadedPlugin.fromBytes crates pkg.bytes manifest.pluginId manifest.effectiveTier with
    | error e =>
      apply Threads.Completes.step (.outcome (.error (describe (.host e)))) rfl
      apply completes_rollback (fun i => clock (i + 1)) hg' (Broker.registerPlugin_eq_ok hregister).2
      intro g'' hg''
      exact ⟨hg'', rfl⟩
    | ok plugin =>
      simp only [hvacant]
      apply Threads.Completes.step (.outcome (.ok ())) rfl
      apply Threads.Completes.step .go (by
        simp only [Load.kernel, Load.stepPc, hg'.plugins, hvacant]; rfl)
      refine .done ⟨⟨hg'.broker, hg'.unlocked, ?_⟩, rfl⟩
      intro id
      simp only [Load.Shared.setOwner]
      by_cases hid : id = manifest.pluginId
      · subst hid
        simp only [AList.lookup_insert, Option.map_some]
      · simp only [AList.lookup_insert_ne hid, hg'.plugins]

/-- **Refinement**: a call that no other call interrupts does what `loadPluginFromDir` does. -/
theorem completes_loadPluginFromDir (describe : RuntimeError → Text) (dir : Directory)
    (clock : Nat → Nat) (hg : Represents k g) :
    (Load.kernel parse policy).Completes t (g, .idle) fun r =>
      Represents (loadPluginFromDir crates k dir clock).1 r.1 ∧
        r.2 = .returned ((loadPluginFromDir crates k dir clock).2.mapError
          (RuntimeError.toLoad describe)) := by
  -- the machine numbers its loads
  have hg' : Represents k { g with loads := g.loads + 1 } := ⟨hg.broker, hg.unlocked, hg.plugins⟩
  unfold loadPluginFromDir
  cases PluginPackage.fromDirectory dir with
  | error message =>
    apply Threads.Completes.step (.load (.error (describe (.io (.os message))))) rfl
    exact .done ⟨hg', rfl⟩
  | ok pkg =>
    dsimp only
    cases hmanifest : parseManifest crates pkg.manifestBytes with
    | error e =>
      apply Threads.Completes.step (.load (.error (describe e))) rfl
      refine .done ⟨hg', ?_⟩
      rw [Except.mapError, toLoad_of_parseManifest hmanifest describe]
    | ok manifest =>
      dsimp only
      apply Threads.Completes.step (.load (.ok manifest.toValidatedManifest)) rfl
      by_cases hloaded : (k.plugins.lookup manifest.pluginId).isSome
      · rw [if_pos hloaded]
        apply Threads.Completes.step .go (by
          simp only [Load.kernel, Load.stepPc, hg.plugins, Option.isSome_map, hloaded]; rfl)
        exact .done ⟨hg', rfl⟩
      · rw [if_neg hloaded]
        apply Threads.Completes.step .go (by
          simp only [Load.kernel, Load.stepPc, hg.plugins, Option.isSome_map, hloaded]; rfl)
        cases hverify : verifyPackage crates pkg manifest dir.signature k.keyring with
        | error e =>
          apply Threads.Completes.step (.outcome (.error (describe e))) rfl
          refine .done ⟨hg', ?_⟩
          rw [Except.mapError, toLoad_of_verifyPackage hverify describe]
        | ok =>
          apply Threads.Completes.step (.outcome (.ok ())) rfl
          exact completes_install describe clock hg' (by simpa using hloaded)

end Refinement

end Entanglement.Runtime.Package
