import Entanglement.Lib.Doc
import Entanglement.Runtime.Package

/-!
# Building a package (`entangle-cli`, `package.rs`)

`entangle plugins build` renders the author's manifest with the signing key's fingerprint as the
publisher, validates it, and signs it together with the compiled plugin. What it signs is meant to be
what a kernel accepts that trusts the key. `accepted_iff` says when it is: the tool compares the
`publisher` field of a `[signature]` table with the key, but leaves the section's algorithm, and the
form of the section, to the kernel.
-/

namespace Entanglement.Cli

open Lib Signing Manifests Runtime.Package

/-! ## Manifests as documents -/

mutual

/-- The arguments of a capability, as far as validation reads them. -/
def capabilityArgs : TomlValue → Value
  | .string s => .string s
  | .table entries => .table (capabilityEntries entries)
  | .scalar _ => .other
  | .array _ => .other

def capabilityEntries : List (Text × TomlValue) → List (Text × Value)
  | [] => []
  | (key, args) :: rest => (key, capabilityArgs args) :: capabilityEntries rest

end

/-- A required field that is a string. -/
def strField? (entries : List (Text × TomlValue)) (key : Text) : Option Text :=
  (entries.lookup key).bind Doc.asStr

/-- A field that is a string if it is there. -/
def strFieldOr (entries : List (Text × TomlValue)) (key default : Text) : Option Text :=
  match entries.lookup key with
  | none => some default
  | some v => v.asStr

/-- `[signature]`, a table or the values of its fields in their order. -/
def decodeSignature : TomlValue → Option SignatureSection
  | .table entries => do
    let publisher ← strField? entries "publisher"
    let algorithm ← strFieldOr entries "algorithm" defaultAlgorithm
    some ⟨publisher, algorithm⟩
  | .array [.string publisher] => some ⟨publisher, defaultAlgorithm⟩
  | .array (.string publisher :: .string algorithm :: _) => some ⟨publisher, algorithm⟩
  | _ => none

def runtimeOfName (s : Text) : Option Runtime :=
  if s = "wasm" then some .wasm else if s = "native" then some .native else none

/-- An enumeration whose variants have no fields: a name, or a table with the name as its only key and
nothing under it. -/
def decodeRuntime : TomlValue → Option Runtime
  | .string s => runtimeOfName s
  | .table [(s, .table [])] => runtimeOfName s
  | .table [(s, .array [])] => runtimeOfName s
  | _ => none

def decodeTier : TomlValue → Option UInt8
  | .scalar (.integer n) => if 0 ≤ n ∧ n < 256 then some (UInt8.ofNat n.toNat) else none
  | _ => none

/-- `[plugin]`; the version and the description are checked though nothing reads them. -/
def decodePlugin (semver : SemverParse) (entries : List (Text × TomlValue)) : Option PluginSection := do
  let id ← strField? entries "id"
  let _ ← (strField? entries "version").bind semver
  let tier ← (entries.lookup "tier".toList).bind decodeTier
  let runtime ← (entries.lookup "runtime".toList).bind decodeRuntime
  let _ ← strFieldOr entries "description" []
  some ⟨id, tier, runtime⟩

/-- `[build]`: two optional strings, in a table or in their order. -/
def decodeBuild : TomlValue → Option Unit
  | .table entries => do
    let _ ← strFieldOr entries "wit_world" []
    let _ ← strFieldOr entries "target" []
    some ()
  | .array (.string _ :: .string _ :: _) => some ()
  | _ => none

/-- An optional section. -/
def decodeSection {β : Type} (decode : TomlValue → Option β) : Option TomlValue → Option (Option β)
  | none => some none
  | some v => (decode v).map some

/-- The derived `Deserialize` of `Manifest`, on a document whose `[plugin]` is a table. -/
def decodeManifest (semver : SemverParse) (doc : TomlValue) : Option Manifest := do
  let plugin ← (doc.get "plugin").bind fun v => v.asTable
  let plugin ← decodePlugin semver plugin
  let capabilities ← decodeSection Doc.asTable (doc.get "capabilities")
  let _ ← decodeSection decodeBuild (doc.get "build")
  let signature ← decodeSection decodeSignature (doc.get "signature")
  some ⟨plugin, capabilityEntries (capabilities.getD []), signature⟩

/-- What the tool takes from other crates. -/
structure Tools where
  toml : Doc.Format TomlScalar
  semver : SemverParse
  /-- The text of the error when a document is not a manifest. -/
  describe : Text → Text
  /-- `toml::to_string` of a bundle. -/
  printBundle : BundleFields → Except Text Text

/-- `toml::from_str` for a manifest. -/
def Tools.readManifest (tools : Tools) (text : Text) : Except Text Manifest :=
  match tools.toml.parse text with
  | .error message => .error message
  | .ok doc =>
    match decodeManifest tools.semver doc with
    | none => .error (tools.describe text)
    | some m => .ok m

/-! ## Rendering -/

structure RenderedManifest where
  toml : Text
  pluginId : Text
  effectiveTier : UInt8
  deriving DecidableEq

inductive RenderError
  | parse (message : Text)
  | notATable
  | missingPlugin
  | pluginNotATable
  | missingVersion
  | missingId
  | emptyName (rawId : Text)
  | signerMismatch (declared fingerprint : Text)
  | serialize (message : Text)
  | reparse (message : Text)
  | invalid (e : ValidationError)
  | idMismatch (pluginId validatedId : Text)
  deriving DecidableEq

/-- The name in a plugin id of any shape: between the last `/` and the last `@` after it. -/
def pluginNameFromId (id : Text) : Text :=
  let afterSlash := match Text.splitLast '/' id with
    | some (_, rest) => rest
    | none => id
  match Text.splitLast '@' afterSlash with
  | some (name, _) => name
  | none => afterSlash

/-- The value, or an error when there is none (`Context::context`). -/
def orElse {β : Type} (e : RenderError) : Option β → Except RenderError β
  | none => .error e
  | some b => .ok b

/-- The publisher that a `[signature]` table declares. -/
def declaredPublisher (entries : List (Text × TomlValue)) : Option Text :=
  (entries.lookup "signature".toList).bind fun s => (s.get "publisher").bind Doc.asStr

/-- The source with its plugin id made out to the signing key, and that id. -/
def rewriteId (tools : Tools) (source fingerprintHex : Text) :
    Except RenderError (List (Text × TomlValue) × Text) := do
  let doc ← (tools.toml.parse source).mapError .parse
  let table ← orElse .notATable doc.asTable
  let plugin ← orElse .missingPlugin (table.lookup "plugin".toList)
  let plugin ← orElse .pluginNotATable plugin.asTable
  let version ← orElse .missingVersion (strField? plugin "version")
  let rawId ← orElse .missingId (strField? plugin "id")
  let name := pluginNameFromId rawId
  if name = [] then .error (.emptyName rawId)
  else
    let pluginId := fingerprintHex ++ '/' :: name ++ '@' :: version
    let plugin := Doc.insertEntry "id" (.string pluginId) plugin
    .ok (Doc.insertEntry "plugin" (.table plugin) table, pluginId)

/-- The signer that a `[signature]` table declares is the signing key. -/
def checkSigner (table : List (Text × TomlValue)) (fingerprintHex : Text) :
    Except RenderError Unit :=
  match declaredPublisher table with
  | none => .ok ()
  | some declared =>
    if !Text.eqIgnoreAsciiCase declared fingerprintHex then
      .error (.signerMismatch declared fingerprintHex)
    else .ok ()

/-- The rendered text, the plugin id, and what the text validates to. -/
def renderValidated (tools : Tools) (source fingerprintHex : Text) :
    Except RenderError (Text × Text × ValidatedManifest) := do
  let (table, pluginId) ← rewriteId tools source fingerprintHex
  checkSigner table fingerprintHex
  let rendered ← (tools.toml.print (.table table)).mapError .serialize
  let parsed ← (tools.readManifest rendered).mapError .reparse
  let validated ← (validate tools.semver parsed).mapError .invalid
  if validated.pluginId.print ≠ pluginId then .error (.idMismatch pluginId validated.pluginId.print)
  else .ok (rendered, pluginId, validated)

/-- `render_dist_manifest`. -/
def renderDistManifest (tools : Tools) (source fingerprintHex : Text) :
    Except RenderError RenderedManifest :=
  (renderValidated tools source fingerprintHex).map fun r =>
    ⟨r.1, r.2.1, UInt8.ofNat r.2.2.effectiveTier.toNat⟩

/-! ## Signing -/

inductive WriteError
  | io (message : Text)
  | serialize (message : Text)
  deriving DecidableEq

/-- `write_dist`: the directory that it leaves. `wasm` is what reading the compiled plugin gives, `disk`
an error of writing the three files. -/
def writeDist (tools : Tools) (crypto : Crypto) (disk : Option Text) (wasm : Except Text Bytes)
    (rendered : RenderedManifest) (keypair : KeyPair) (createdAt : UInt64) :
    Except WriteError Directory := do
  let wasm ← wasm.mapError .io
  match disk with
  | some message => throw (.io message)
  | none => pure ()
  let manifest := Text.utf8 rendered.toml
  let bundle := signArtifact crypto wasm manifest keypair createdAt
  let sig ← (tools.printBundle bundle.fields).mapError .serialize
  pure ⟨.ok wasm, .ok manifest, .ok (Text.utf8 sig)⟩

/-! ## What was rendered -/

variable {tools : Tools} {source fingerprintHex : Text}

/-- The rendered document is the source with another plugin id, made out to the key. -/
structure Rewritten (tools : Tools) (source fingerprintHex : Text)
    (table : List (Text × TomlValue)) (pluginId : Text) : Prop where
  signature : ∃ entries, tools.toml.parse source = .ok (.table entries) ∧
    table.lookup "signature".toList = entries.lookup "signature".toList
  publisher : ∃ rest, pluginId = fingerprintHex ++ '/' :: rest

variable {pluginId text : Text} {table : List (Text × TomlValue)} {validated : ValidatedManifest}
  {raw : Manifest}

theorem rewriteId_eq_ok (h : rewriteId tools source fingerprintHex = .ok (table, pluginId)) :
    Rewritten tools source fingerprintHex table pluginId := by
  obtain ⟨doc, hdoc, h⟩ := except_bind_eq_ok.1 h
  obtain ⟨entries, hentries, h⟩ := except_bind_eq_ok.1 h
  obtain ⟨v, -, h⟩ := except_bind_eq_ok.1 h
  obtain ⟨plugin, -, h⟩ := except_bind_eq_ok.1 h
  obtain ⟨version, -, h⟩ := except_bind_eq_ok.1 h
  obtain ⟨rawId, -, h⟩ := except_bind_eq_ok.1 h
  have hdoc := except_mapError_eq_ok.1 hdoc
  have htable : doc = .table entries := by
    cases doc <;> simp [orElse, Doc.asTable] at hentries
    rw [hentries]
  dsimp only at h
  split at h
  · cases h
  · cases h
    refine ⟨⟨entries, by rw [hdoc, htable], ?_⟩, ⟨pluginNameFromId rawId ++ '@' :: version, by simp⟩⟩
    rw [Doc.lookup_insertEntry, if_neg (by decide)]

theorem checkSigner_eq_ok (h : checkSigner table fingerprintHex = .ok ()) (declared : Text)
    (hdeclared : declaredPublisher table = some declared) :
    Text.toLower declared = Text.toLower fingerprintHex := by
  unfold checkSigner at h
  rw [hdeclared] at h
  simpa [Text.eqIgnoreAsciiCase] using h

/-- What the tool has checked when it renders a manifest. -/
structure Rendered (tools : Tools) (source fingerprintHex text pluginId : Text)
    (v : ValidatedManifest) (table : List (Text × TomlValue)) (raw : Manifest) : Prop where
  rewritten : Rewritten tools source fingerprintHex table pluginId
  signer : ∀ declared, declaredPublisher table = some declared →
    Text.toLower declared = Text.toLower fingerprintHex
  printed : tools.toml.print (.table table) = .ok text
  read : tools.readManifest text = .ok raw
  valid : validate tools.semver raw = .ok v
  id : v.pluginId.print = pluginId

theorem renderValidated_eq_ok
    (h : renderValidated tools source fingerprintHex = .ok (text, pluginId, validated)) :
    ∃ table raw, Rendered tools source fingerprintHex text pluginId validated table raw := by
  obtain ⟨⟨table, id⟩, hrewrite, h⟩ := except_bind_eq_ok.1 h
  obtain ⟨_, hsigner, h⟩ := except_bind_eq_ok.1 h
  obtain ⟨rendered, hprint, h⟩ := except_bind_eq_ok.1 h
  obtain ⟨raw, hread, h⟩ := except_bind_eq_ok.1 h
  obtain ⟨v, hvalid, h⟩ := except_bind_eq_ok.1 h
  split at h
  · cases h
  · next hid =>
    cases h
    exact ⟨table, raw, rewriteId_eq_ok hrewrite, checkSigner_eq_ok hsigner,
      except_mapError_eq_ok.1 hprint, except_mapError_eq_ok.1 hread, except_mapError_eq_ok.1 hvalid,
      not_not.1 hid⟩

/-! ## What the kernel sees -/

/-- The `[signature]` section of the source, if it has one, names the signing key and the algorithm of
its signatures. -/
def SectionAgrees (tools : Tools) (source fingerprintHex : Text) : Prop :=
  ∀ doc s sec, tools.toml.parse source = .ok doc → doc.get "signature" = some s →
    decodeSignature s = some sec →
    Text.toLower sec.publisher = Text.toLower fingerprintHex ∧ sec.algorithm = "ed25519"

/-- A section of a rendered manifest is that of the source. -/
theorem Rendered.signature
    (h : Rendered tools source fingerprintHex text pluginId validated table raw)
    (hround : tools.toml.RoundTrips) :
    ∃ doc, tools.toml.parse source = .ok doc ∧
      decodeSection decodeSignature (doc.get "signature") = some raw.signature := by
  obtain ⟨entries, hparse, hsame⟩ := h.rewritten.signature
  refine ⟨_, hparse, ?_⟩
  have hread := h.read
  unfold Tools.readManifest at hread
  rw [hround _ _ h.printed] at hread
  dsimp only at hread
  split at hread
  · cases hread
  · next m hm =>
    cases hread
    obtain ⟨_, -, hm⟩ := Option.bind_eq_some_iff.1 hm
    obtain ⟨_, -, hm⟩ := Option.bind_eq_some_iff.1 hm
    obtain ⟨_, -, hm⟩ := Option.bind_eq_some_iff.1 hm
    obtain ⟨_, -, hm⟩ := Option.bind_eq_some_iff.1 hm
    obtain ⟨sig, hsig, hm⟩ := Option.bind_eq_some_iff.1 hm
    cases hm
    have hget : (Doc.table table).get "signature" = entries.lookup "signature".toList := hsame
    rw [hget] at hsig
    exact hsig

theorem sectionAgrees_iff
    (h : Rendered tools source fingerprintHex text pluginId validated table raw)
    (hround : tools.toml.RoundTrips) :
    SectionAgrees tools source fingerprintHex ↔ ∀ sec, raw.signature = some sec →
      Text.toLower sec.publisher = Text.toLower fingerprintHex ∧
        sec.algorithm = "ed25519" := by
  obtain ⟨doc, hparse, hsection⟩ := h.signature hround
  constructor
  · intro hagrees sec hsec
    cases hget : doc.get "signature" with
    | none =>
      rw [hget, hsec] at hsection
      cases hsection
    | some s =>
      rw [hget, hsec] at hsection
      refine hagrees doc s sec hparse hget ?_
      simpa [decodeSection] using hsection
  · intro hall doc' s sec hparse' hget hsec
    rw [hparse] at hparse'
    cases hparse'
    refine hall sec ?_
    rw [hget] at hsection
    simpa [decodeSection, hsec] using hsection.symm

/-- The publisher of a rendered manifest is the signing key. -/
theorem Rendered.publisher
    (h : Rendered tools source fingerprintHex text pluginId validated table raw)
    (hslash : '/' ∉ fingerprintHex) : validated.pluginId.publisher = fingerprintHex := by
  obtain ⟨publisher, name, version, hnew⟩ :=
    PluginId.exists_new_of_parse (validate_sound h.valid).pluginId
  obtain ⟨rest, hrest⟩ := h.rewritten.publisher
  have hprint : validated.pluginId.publisher ++ '/' :: (validated.pluginId.name ++
      '@' :: validated.pluginId.version.print) = fingerprintHex ++ '/' :: rest := by
    rw [← hrest, ← h.id]
    simp [PluginId.print]
  have hsplit := congrArg (Text.splitFirst '/') hprint
  rw [Text.splitFirst_append (PluginId.slash_not_mem_publisher hnew),
    Text.splitFirst_append hslash] at hsplit
  exact congrArg Prod.fst (Option.some.inj hsplit)

section Kernel

variable {α : Type} {crates : Crates α} {keypair : KeyPair} {k : Kernel α} {dir : Directory}

/-- `IdentityKeyPair::fingerprint_hex`: the publisher of what the key signs. -/
def keyFingerprintHex (crypto : Crypto) (keypair : KeyPair) : Text :=
  Hex.encode (fingerprint crypto.blake3 keypair.publicKey).toList

/-- The tool and the kernel use the same crates, and what is written as TOML is read back. -/
structure Compatible (tools : Tools) (crates : Crates α) : Prop where
  manifest : crates.manifestToml = tools.readManifest
  semver : crates.semver = tools.semver
  toml : tools.toml.RoundTrips
  bundle : ∀ fields text, tools.printBundle fields = .ok text → crates.bundleToml text = .ok fields

/-- The key is one, and its signatures verify under it. -/
structure Signs (crypto : Crypto) (keypair : KeyPair) : Prop where
  key : crypto.isKey keypair.publicKey = true
  verifies : ∀ msg, crypto.verify keypair.publicKey msg (keypair.sign msg) = true

/-- The kernel trusts the key, its ceiling admits the plugin, and it has no plugin of that id. -/
structure Expects (crypto : Crypto) (keypair : KeyPair) (rendered : RenderedManifest)
    (k : Kernel α) : Prop where
  trusted : k.keyring.lookup (fingerprint crypto.blake3 keypair.publicKey) =
    some ⟨fingerprint crypto.blake3 keypair.publicKey, keypair.publicKey⟩
  ceiling : rendered.effectiveTier.toNat ≤ k.broker.policy.maxTierAllowed.toNat
  fresh : ∀ id : PluginId, id.print = rendered.pluginId →
    k.plugins.lookup id = none ∧ k.broker.plugins.lookup id = none

/-- A load of the directory passes every check up to the registration, with this manifest. -/
structure Accepted (crates : Crates α) (k : Kernel α) (dir : Directory) (clock : Nat → Nat)
    (v : ValidatedManifest) : Prop where
  checked : ∃ pkg, PluginPackage.fromDirectory dir = .ok pkg ∧
    parseManifest crates pkg.manifestBytes = .ok v ∧
    verifyPackage crates pkg v dir.signature k.keyring = .ok () ∧
    loadPluginFromDir crates k dir clock = install crates k pkg v clock
  registered : (k.broker.registerPlugin v.toValidatedManifest (clock 0)).2 = .ok ()

theorem writeDist_eq_ok {crypto : Crypto} {disk : Option Text} {wasm : Except Text Bytes}
    {rendered : RenderedManifest} {createdAt : UInt64}
    (h : writeDist tools crypto disk wasm rendered keypair createdAt = .ok dir) :
    ∃ bytes sig, dir = ⟨.ok bytes, .ok (Text.utf8 rendered.toml), .ok (Text.utf8 sig)⟩ ∧
      tools.printBundle (signArtifact crypto bytes (Text.utf8 rendered.toml) keypair
        createdAt).fields = .ok sig := by
  obtain ⟨bytes, -, h⟩ := except_bind_eq_ok.1 h
  cases disk with
  | some message => cases h
  | none =>
    obtain ⟨sig, hsig, h⟩ := except_bind_eq_ok.1 h
    cases h
    exact ⟨bytes, sig, rfl, except_mapError_eq_ok.1 hsig⟩

theorem parseManifest_rendered (hcompat : Compatible tools crates) {v : ValidatedManifest}
    {hex : Text} (h : Rendered tools source hex text pluginId v table raw) :
    parseManifest crates (Text.utf8 text) = .ok v :=
  parseManifest_utf8 (hcompat.manifest ▸ h.read) (hcompat.semver ▸ h.valid)

/-- The section is accepted when it agrees with the bundle of the signing key. -/
theorem checkSection_eq_ok_iff {signature : Option SignatureSection} {bundle : SignatureBundle}
    {signer : Text} : checkSection signature bundle signer = .ok () ↔
      ∀ sec, signature = some sec →
        Text.toLower sec.publisher = Text.toLower signer ∧ sec.algorithm = bundle.algorithm := by
  constructor
  · intro h sec hsec
    exact checkSection_eq_ok h sec hsec
  · intro h
    cases signature with
    | none => rfl
    | some sec =>
      obtain ⟨hpublisher, halgorithm⟩ := h sec rfl
      simp [checkSection, Text.eqIgnoreAsciiCase, hpublisher, halgorithm]

theorem slash_not_mem_encode (bs : Bytes) : '/' ∉ Hex.encode bs := fun hmem => by
  have := Hex.isAsciiHexdigit_of_mem_encode hmem
  contradiction

/-- What is signed verifies, up to the `[signature]` section. -/
theorem verifyPackage_written (hcompat : Compatible tools crates)
    (hsigns : Signs crates.crypto keypair) {rendered : RenderedManifest}
    (hk : Expects crates.crypto keypair rendered k) {v : ValidatedManifest}
    (hpublisher : v.pluginId.publisher = keyFingerprintHex crates.crypto keypair)
    {bytes manifest : Bytes} {createdAt : UInt64} {sig : Text}
    (hsig : tools.printBundle (signArtifact crates.crypto bytes manifest keypair createdAt).fields =
      .ok sig) :
    verifyPackage crates ⟨bytes, manifest⟩ v (.ok (Text.utf8 sig)) k.keyring =
      (checkSection v.raw.signature (signArtifact crates.crypto bytes manifest keypair createdAt)
        (keyFingerprintHex crates.crypto keypair)).mapError .signing := by
  have hverify := verifyArtifact_signArtifact hsigns.key hsigns.verifies hk.trusted bytes manifest
    createdAt
  have hsame : Text.eqIgnoreAsciiCase (keyFingerprintHex crates.crypto keypair)
      v.pluginId.publisher = true := by
    rw [hpublisher]
    simp [Text.eqIgnoreAsciiCase]
  unfold verifyPackage
  rw [readBundle_utf8 (hcompat.bundle _ _ hsig)]
  simp only [hverify]
  change (if (!Text.eqIgnoreAsciiCase (keyFingerprintHex crates.crypto keypair)
    v.pluginId.publisher) = true then _ else _) = _
  rw [hsame]
  simp only [Bool.not_true, Bool.false_eq_true, ↓reduceIte]
  unfold keyFingerprintHex
  split
  · next e he => rw [he]; rfl
  · next he => rw [he]; rfl

theorem toNat_ofNat_tier (t : Tier) : (UInt8.ofNat t.toNat).toNat = t.toNat := by
  cases t <;> rfl

theorem registerPlugin_accepts {b : Broker} {manifest : Broker.ValidatedManifest} {at_ : Nat}
    (htier : manifest.effectiveTier ≤ b.policy.maxTierAllowed)
    (hfresh : b.plugins.lookup manifest.pluginId = none) :
    (b.registerPlugin manifest at_).2 = .ok () := by
  unfold Broker.registerPlugin Broker.BrokerPolicy.checkPluginLoad
  rw [if_neg (not_lt.2 htier)]
  simp only [hfresh]

/-- **What the tool signs, the kernel accepts**, with the manifest that the tool validated, exactly
when the `[signature]` section of the source, if it has one, names the signing key and `ed25519`. -/
theorem accepted_iff (hcompat : Compatible tools crates) (hsigns : Signs crates.crypto keypair)
    {disk : Option Text} {wasm : Except Text Bytes} {createdAt : UInt64} {rendered : RenderedManifest}
    (hrender : renderDistManifest tools source (keyFingerprintHex crates.crypto keypair) =
      .ok rendered)
    (hwrite : writeDist tools crates.crypto disk wasm rendered keypair createdAt = .ok dir)
    (hk : Expects crates.crypto keypair rendered k) (clock : Nat → Nat) :
    (∃ v, renderValidated tools source (keyFingerprintHex crates.crypto keypair) =
        .ok (rendered.toml, rendered.pluginId, v) ∧ Accepted crates k dir clock v) ↔
      SectionAgrees tools source (keyFingerprintHex crates.crypto keypair) := by
  obtain ⟨⟨text, pluginId, v⟩, hvalidated, hr⟩ := except_map_eq_ok.1 hrender
  subst hr
  obtain ⟨table, raw, hrendered⟩ := renderValidated_eq_ok hvalidated
  obtain ⟨bytes, sig, rfl, hsig⟩ := writeDist_eq_ok hwrite
  have hpublisher := hrendered.publisher (slash_not_mem_encode _)
  have hverify : verifyPackage crates ⟨bytes, Text.utf8 text⟩ v (.ok (Text.utf8 sig)) k.keyring =
      .ok () ↔ SectionAgrees tools source (keyFingerprintHex crates.crypto keypair) := by
    rw [verifyPackage_written hcompat hsigns hk hpublisher hsig, except_mapError_eq_ok,
      checkSection_eq_ok_iff, sectionAgrees_iff hrendered hcompat.toml,
      (validate_sound hrendered.valid).raw]
    rfl
  rw [← hverify]
  obtain ⟨hunloaded, hunregistered⟩ := hk.fresh v.pluginId hrendered.id
  constructor
  · rintro ⟨v', hv', haccepted⟩
    rw [hvalidated] at hv'
    cases hv'
    obtain ⟨pkg, hpkg, -, hverified, -⟩ := haccepted.checked
    cases hpkg
    exact hverified
  · intro hverified
    have hparse := parseManifest_rendered hcompat hrendered
    refine ⟨v, hvalidated, ⟨⟨bytes, Text.utf8 text⟩, rfl, hparse, hverified, ?_⟩, ?_⟩
    · exact loadPluginFromDir_eq_install rfl hparse hunloaded hverified clock
    · refine registerPlugin_accepts ?_ hunregistered
      have hceiling := hk.ceiling
      rw [toNat_ofNat_tier] at hceiling
      exact hceiling

end Kernel

/-! ## A plugin for concrete runs

Its manifest pins the signing key; the parameter is the algorithm that it names. -/

deriving instance DecidableEq for BundleFields

def samplePublisher : Text := "9515049071ed913149a80d3bb7891fcd"

def sampleTable (id algorithm : Text) : List (Text × TomlValue) :=
  [("plugin", .table [("id", .string id), ("runtime", .string "wasm"),
      ("tier", .scalar (.integer 1)), ("version", .string "1.0.0")]),
    ("signature", .table [("algorithm", .string algorithm),
      ("publisher", .string samplePublisher)])]

def sampleSource : Text := "source"

def sampleDist : Text := "dist"

def sampleId : Text := samplePublisher ++ "/demo@1.0.0"

/-- The format, on the source and the rendered document only. -/
def sampleFormat (algorithm : Text) : Doc.Format TomlScalar :=
  .ofRows [(sampleSource, .table (sampleTable "PUBLISHER_PLACEHOLDER/demo@1.0.0" algorithm)),
    (sampleDist, .table (sampleTable sampleId algorithm))]

def sampleCrypto : Crypto where
  blake3 := sampleHash
  deriveKey _ _ := List.Vector.replicate 32 0
  isKey _ := true
  verify _ _ sig := sig == List.Vector.replicate 64 0

def sampleKeyPair : KeyPair := ⟨sampleKey 1, fun _ => List.Vector.replicate 64 0⟩

def sampleFields : BundleFields :=
  (signArtifact sampleCrypto [0] (Text.utf8 sampleDist) sampleKeyPair 0).fields

def sampleTools (algorithm : Text) : Tools where
  toml := sampleFormat algorithm
  semver := sampleSemver
  describe _ := "not a manifest"
  printBundle fields := if fields = sampleFields then .ok [] else .error "unsupported"

def sampleCrates (algorithm : Text) : Crates Unit where
  crypto := sampleCrypto
  semver := sampleSemver
  manifestToml := (sampleTools algorithm).readManifest
  bundleToml _ := .ok sampleFields
  compile _ := .ok ()

theorem sampleTexts_nodup : [sampleSource, sampleDist].Nodup := by
  decide

theorem sampleCompatible (algorithm : Text) :
    Compatible (sampleTools algorithm) (sampleCrates algorithm) where
  manifest := rfl
  semver := rfl
  toml := Doc.Format.ofRows_roundTrips sampleTexts_nodup
  bundle := by
    intro fields text h
    by_cases heq : fields = sampleFields
    · rw [heq]
      rfl
    · have hunsupported : (sampleTools algorithm).printBundle fields = .error "unsupported" :=
        if_neg heq
      rw [hunsupported] at h
      cases h

theorem sampleSigns : Signs sampleCrypto sampleKeyPair :=
  ⟨rfl, fun _ => by simp [sampleCrypto, sampleKeyPair]⟩

def sampleRendered : RenderedManifest := ⟨sampleDist, sampleId, 1⟩

def sampleDirectory : Directory := ⟨.ok [0], .ok (Text.utf8 sampleDist), .ok []⟩

def sampleKernel : Kernel Unit where
  broker := .new Broker.samplePolicy
  keyring := Keyring.new.add ⟨fingerprint sampleHash (sampleKey 1), sampleKey 1⟩
  plugins := ∅

theorem sampleExpects : Expects sampleCrypto sampleKeyPair sampleRendered sampleKernel where
  trusted := AList.lookup_insert _
  ceiling := by decide
  fresh _ _ := ⟨rfl, rfl⟩

theorem keyFingerprintHex_sample : keyFingerprintHex sampleCrypto sampleKeyPair = samplePublisher := by
  decide

theorem writeDist_sample (algorithm : Text) :
    writeDist (sampleTools algorithm) sampleCrypto none (.ok [0]) sampleRendered sampleKeyPair 0 =
      .ok sampleDirectory := by
  simp only [writeDist]
  rfl

theorem accepted_iff_sample :
    ∃ v, renderValidated (sampleTools "ed25519") sampleSource
        (keyFingerprintHex sampleCrypto sampleKeyPair) = .ok (sampleDist, sampleId, v) ∧
      Accepted (sampleCrates "ed25519") sampleKernel sampleDirectory (fun _ => 0) v := by
  have hrender : renderDistManifest (sampleTools "ed25519") sampleSource
      (keyFingerprintHex sampleCrypto sampleKeyPair) = .ok sampleRendered := by
    rw [keyFingerprintHex_sample]
    rfl
  refine (accepted_iff (sampleCompatible _) sampleSigns hrender (writeDist_sample _) sampleExpects
    fun _ => 0).2 ?_
  intro doc s sec hparse hget hsec
  cases hparse
  cases hget
  cases hsec
  exact ⟨congrArg Text.toLower keyFingerprintHex_sample.symm, rfl⟩

def otherAlgorithm : Text := "rsa"

def otherValidated : ValidatedManifest where
  pluginId := ⟨samplePublisher, "demo", ⟨"1.0.0"⟩⟩
  declaredTier := .pure
  impliedTier := .pure
  effectiveTier := .pure
  capabilities := []
  runtime := .wasm
  raw := ⟨⟨sampleId, 1, .wasm⟩, [], some ⟨samplePublisher, otherAlgorithm⟩⟩

theorem parseManifest_other :
    parseManifest (sampleCrates otherAlgorithm) (Text.utf8 sampleDist) = .ok otherValidated := by
  unfold parseManifest
  rw [Text.fromUtf8_utf8]
  rfl

theorem verifyPackage_other :
    verifyPackage (sampleCrates otherAlgorithm) ⟨[0], Text.utf8 sampleDist⟩ otherValidated
        sampleDirectory.signature sampleKernel.keyring =
      .error (.signing (.unsupportedAlgorithm otherAlgorithm)) := by
  have hsig : (sampleTools otherAlgorithm).printBundle (signArtifact sampleCrypto [0]
      (Text.utf8 sampleDist) sampleKeyPair 0).fields = .ok [] := by simp [sampleTools, sampleFields]
  have hverify := verifyPackage_written (sampleCompatible otherAlgorithm) sampleSigns sampleExpects
    (v := otherValidated) keyFingerprintHex_sample.symm hsig
  refine hverify.trans ?_
  change Except.mapError _ (checkSection _ _ (keyFingerprintHex sampleCrypto sampleKeyPair)) = _
  rw [keyFingerprintHex_sample]
  rfl

/-- A manifest that names another algorithm is rendered and signed, and the kernel refuses it. -/
theorem unloadable_algorithm :
    renderDistManifest (sampleTools otherAlgorithm) sampleSource
        (keyFingerprintHex sampleCrypto sampleKeyPair) = .ok sampleRendered ∧
      writeDist (sampleTools otherAlgorithm) sampleCrypto none (.ok [0]) sampleRendered
        sampleKeyPair 0 = .ok sampleDirectory ∧
      Expects sampleCrypto sampleKeyPair sampleRendered sampleKernel ∧
      loadPluginFromDir (sampleCrates otherAlgorithm) sampleKernel sampleDirectory (fun _ => 0) =
        (sampleKernel, .error (.signing (.unsupportedAlgorithm otherAlgorithm))) := by
  refine ⟨by rw [keyFingerprintHex_sample]; rfl, writeDist_sample _, sampleExpects, ?_⟩
  have hpkg : PluginPackage.fromDirectory sampleDirectory = .ok ⟨[0], Text.utf8 sampleDist⟩ := rfl
  have hfresh : sampleKernel.plugins.lookup otherValidated.pluginId = none := rfl
  unfold loadPluginFromDir
  simp only [hpkg, parseManifest_other, hfresh, verifyPackage_other, Option.isSome_none,
    Bool.false_eq_true, ↓reduceIte]

end Entanglement.Cli
