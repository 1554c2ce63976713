import Entanglement.Runtime.Package

/-!
# Where a loaded plugin comes from

A load that succeeds rests on evidence: the package, its manifest, the signature bundle and the
keyring entry of the signer. `Vetted` says how they belong together, and `loadPluginFromDir_sound`
that they do: what was verified is what was registered and compiled, and, if BLAKE3 has no collisions
and signatures cannot be forged, it is what the publisher signed. Who the publisher is depends on the
keyring: `authentic_iff` says that the name under which a plugin runs is the fingerprint of the key
that signed it exactly when the entries that were put into the keyring say so.
-/

namespace Entanglement.Runtime.Package

open Lib Signing Manifests

/-! ## Evidence -/

/-- What a load rests on. -/
structure Evidence where
  pkg : PluginPackage
  manifest : ValidatedManifest
  bundle : SignatureBundle
  entry : TrustEntry

section Vetted
variable {α : Type}

/-- The load of `dir` that returned `id` rests on `ev`. -/
structure Vetted (crates : Crates α) (k : Kernel α) (dir : Directory) (k' : Kernel α)
    (id : PluginId) (ev : Evidence) : Prop where
  artifact_read : dir.artifact = .ok ev.pkg.bytes
  manifest_read : dir.manifest = .ok ev.pkg.manifestBytes
  bundle_read : readBundle crates dir.signature = .ok ev.bundle
  /-- Version, algorithm, the two hashes, and the signature under the key of the entry. -/
  verified : Verified crates.crypto ev.pkg.bytes ev.pkg.manifestBytes ev.bundle k.keyring ev.entry
  publisher : id.publisher = Hex.encode ev.entry.fingerprint.toList
  /-- The manifest is the reading of the bytes that were hashed. -/
  parsed : parseManifest crates ev.pkg.manifestBytes = .ok ev.manifest
  named : ev.manifest.pluginId = id
  /-- That manifest is registered, at a tier below the ceiling, and the artifact that was hashed is
  what was compiled. -/
  installed : Installed crates k ev.pkg ev.manifest k'
  /-- A `[signature]` section names the publisher, in either case of its digits, and the algorithm. -/
  declared : ∀ sec ∈ ev.manifest.raw.signature,
    Text.toLower sec.publisher = id.publisher ∧ sec.algorithm = ev.bundle.algorithm

theorem exists_vetted {crates : Crates α} {k k' : Kernel α} {dir : Directory} {clock : Nat → Nat}
    {id : PluginId} (h : loadPluginFromDir crates k dir clock = (k', .ok id)) :
    ∃ ev, Vetted crates k dir k' id ev := by
  obtain ⟨pkg, manifest, hpkg, hmanifest, rfl, hverify, hinstalled⟩ := loadPluginFromDir_eq_ok h
  obtain ⟨bundle, entry, hbundle, hverified, hpublisher, hsection⟩ := verifyPackage_eq_ok hverify
  obtain ⟨hartifact, hmanifestRead⟩ := fromDirectory_eq_ok hpkg
  -- both sides of the comparison are in lower case already
  rw [Hex.toLower_encode, toLower_publisher hmanifest] at hpublisher
  refine ⟨⟨pkg, manifest, bundle, entry⟩, hartifact, hmanifestRead, hbundle, hverified,
    hpublisher.symm, hmanifest, rfl, hinstalled, ?_⟩
  intro sec hsec
  obtain ⟨hname, halgorithm⟩ := checkSection_eq_ok hsection sec hsec
  rw [Hex.toLower_encode, hpublisher] at hname
  exact ⟨hname, halgorithm⟩

end Vetted

/-! ## What the publisher signed -/

/-- BLAKE3 has no collision among the byte strings in question: not on them, and not, in the signing
domain, on the pairs of their hashes. -/
structure CollisionFree (crypto : Crypto) (seen : Set Bytes) : Prop where
  hash : Set.InjOn crypto.blake3 seen
  digest : Set.InjOn (crypto.deriveKey signingDomain)
    {d | ∃ a ∈ seen, ∃ m ∈ seen, d = (crypto.blake3 a).toList ++ (crypto.blake3 m).toList}

/-- Signatures cannot be forged: what the key of an entry verifies is the digest of an artifact and a
manifest that the owner of the key has signed. -/
def Unforgeable (crypto : Crypto) (keyring : Keyring) (signed : Key → Bytes → Bytes → Prop) : Prop :=
  ∀ {fp e}, keyring.lookup fp = some e → ∀ {msg sig}, crypto.verify e.publicKey msg sig = true →
    ∃ artifact manifest, signed e.publicKey artifact manifest ∧ msg = payload crypto artifact manifest

variable {keyring : Keyring}

section Signed
variable {α : Type} {crates : Crates α} {seen : Set Bytes}

/-- Two packages that verify with one bundle are the same. -/
theorem package_eq {pkg pkg₂ : PluginPackage} {bundle : SignatureBundle} {keyring₂ : Keyring}
    {entry entry₂ : TrustEntry} (hfree : CollisionFree crates.crypto seen)
    (hseen : pkg.bytes ∈ seen ∧ pkg.manifestBytes ∈ seen)
    (hseen₂ : pkg₂.bytes ∈ seen ∧ pkg₂.manifestBytes ∈ seen)
    (h : Verified crates.crypto pkg.bytes pkg.manifestBytes bundle keyring entry)
    (h₂ : Verified crates.crypto pkg₂.bytes pkg₂.manifestBytes bundle keyring₂ entry₂) :
    pkg₂ = pkg := by
  apply PluginPackage.ext
  · exact hfree.hash hseen₂.1 hseen.1 (h₂.artifact_hash.trans h.artifact_hash.symm)
  · exact hfree.hash hseen₂.2 hseen.2 (h₂.manifest_hash.trans h.manifest_hash.symm)

/-- A package that verifies is one that the owner of the key has signed. -/
theorem signed_of_verified {pkg : PluginPackage} {bundle : SignatureBundle} {entry : TrustEntry}
    {signed : Key → Bytes → Bytes → Prop} (hfree : CollisionFree crates.crypto seen)
    (hunforgeable : Unforgeable crates.crypto keyring signed)
    (hsigned : ∀ {key a m}, signed key a m → a ∈ seen ∧ m ∈ seen)
    (hseen : pkg.bytes ∈ seen ∧ pkg.manifestBytes ∈ seen)
    (h : Verified crates.crypto pkg.bytes pkg.manifestBytes bundle keyring entry) :
    signed entry.publicKey pkg.bytes pkg.manifestBytes := by
  obtain ⟨a, m, hsig, hdigest⟩ := hunforgeable h.trusted h.signature
  obtain ⟨ha, hm⟩ := hsigned hsig
  rw [← h.artifact_hash, ← h.manifest_hash] at hdigest
  have hpair := hfree.digest ⟨_, hseen.1, _, hseen.2, rfl⟩ ⟨a, ha, m, hm, rfl⟩
    (List.Vector.toList_injective hdigest)
  obtain ⟨hartifact, hmanifest⟩ := List.append_inj hpair (by simp)
  have heq := hfree.hash hseen.1 ha (List.Vector.toList_injective hartifact)
  have heq' := hfree.hash hseen.2 hm (List.Vector.toList_injective hmanifest)
  rw [heq, heq']
  exact hsig

end Signed

/-! ## Soundness of loading -/

section Sound
variable {α : Type}

/-- No other package is accepted with the same bundle: all that is accepted with it has this artifact
and this manifest, and so the tiers and the capabilities of this one. -/
def OnlyPackage (crates : Crates α) (ev : Evidence) : Prop :=
  ∀ seen, CollisionFree crates.crypto seen →
    ev.pkg.bytes ∈ seen ∧ ev.pkg.manifestBytes ∈ seen →
    ∀ k₂ dir₂ clock₂ k₂' id₂, loadPluginFromDir crates k₂ dir₂ clock₂ = (k₂', .ok id₂) →
    ∀ ev₂, Vetted crates k₂ dir₂ k₂' id₂ ev₂ → ev₂.bundle = ev.bundle →
    ev₂.pkg.bytes ∈ seen ∧ ev₂.pkg.manifestBytes ∈ seen →
    ev₂.pkg = ev.pkg ∧ ev₂.manifest = ev.manifest

/-- The owner of the key that verified has signed this artifact with this manifest. -/
def SignedByPublisher (crates : Crates α) (keyring : Keyring) (ev : Evidence) : Prop :=
  ∀ seen signed, CollisionFree crates.crypto seen → Unforgeable crates.crypto keyring signed →
    (∀ {key a m}, signed key a m → a ∈ seen ∧ m ∈ seen) →
    ev.pkg.bytes ∈ seen ∧ ev.pkg.manifestBytes ∈ seen →
    signed ev.entry.publicKey ev.pkg.bytes ev.pkg.manifestBytes

/-- **Loading is sound**: what is verified, registered and compiled is one package, the only one for
its bundle, and its publisher has signed it. -/
theorem loadPluginFromDir_sound (crates : Crates α) {k k' : Kernel α} {dir : Directory}
    {clock : Nat → Nat} {id : PluginId} (h : loadPluginFromDir crates k dir clock = (k', .ok id)) :
    ∃ ev, Vetted crates k dir k' id ev ∧ OnlyPackage crates ev ∧
      SignedByPublisher crates k.keyring ev := by
  obtain ⟨ev, hev⟩ := exists_vetted h
  refine ⟨ev, hev, ?_, ?_⟩
  · intro seen hfree hseen k₂ dir₂ clock₂ k₂' id₂ _ ev₂ hev₂ hbundle hseen₂
    have hpkg : ev₂.pkg = ev.pkg :=
      package_eq hfree hseen hseen₂ hev.verified (hbundle ▸ hev₂.verified)
    have hparsed := hev₂.parsed
    rw [hpkg, hev.parsed] at hparsed
    exact ⟨hpkg, (Except.ok.inj hparsed).symm⟩
  · intro seen signed hfree hunforgeable hsigned hseen
    exact signed_of_verified hfree hunforgeable hsigned hseen hev.verified

end Sound

/-! ## A package for concrete runs

The package is made out to the publisher with the key `sampleKey 1`; the parameter is the key that
signs it. The parsers know the texts of its files and refuse every other. -/

/-- A line of a TOML table. -/
def tomlLine (key value : Text) : Text := key ++ " = \"" ++ value ++ "\"\n"

def samplePublisher : Text := "9515049071ed913149a80d3bb7891fcd"

def sampleManifest : Text :=
  "[plugin]\n" ++ tomlLine "id" (samplePublisher ++ "/demo@1.0.0") ++
  tomlLine "version" "1.0.0" ++ "tier = 2\n" ++
  tomlLine "runtime" "wasm" ++
  "\n[capabilities.\"compute.cpu\"]\n\n[signature]\n" ++
  tomlLine "publisher" "9515049071ED913149A80D3BB7891FCD"

/-- The component without sections. -/
def sampleArtifact : Bytes := [0, 97, 115, 109, 13, 0, 1, 0]

@[irreducible]
def sampleManifestBytes : Bytes := Text.utf8 sampleManifest

def artifactHash : ByteVec 32 := ⟨[72, 211, 162, 232, 169, 176, 205, 230, 41, 59, 167, 246, 136, 36,
  169, 125, 6, 157, 9, 111, 68, 51, 90, 158, 134, 174, 229, 82, 56, 220, 220, 184], rfl⟩

def manifestHash : ByteVec 32 := ⟨[214, 246, 245, 104, 70, 104, 226, 12, 239, 92, 170, 68, 227, 244,
  139, 252, 218, 235, 101, 36, 173, 213, 150, 204, 214, 251, 0, 16, 133, 66, 86, 43], rfl⟩

/-- BLAKE3 on the files of the package as well. -/
def packageHash : Blake3 := fun bs =>
  if bs = sampleArtifact then artifactHash
  else if bs = sampleManifestBytes then manifestHash
  else sampleHash bs

theorem head?_sampleManifestBytes : sampleManifestBytes.head? = some 91 := by decide +kernel

/-- The two files hash to their own digests. -/
theorem packageHash_file (b : Bool) :
    packageHash (cond b sampleArtifact sampleManifestBytes) = cond b artifactHash manifestHash := by
  cases b with
  | true => exact if_pos rfl
  | false =>
    have hne : sampleManifestBytes ≠ sampleArtifact := fun h => by
      simpa [h, sampleArtifact] using head?_sampleManifestBytes
    exact (if_neg hne).trans (if_pos rfl)

theorem packageHash_sampleKey :
    packageHash (sampleKey 1).toList = sampleHash (sampleKey 1).toList := by
  have hne : (sampleKey 1).toList ≠ sampleManifestBytes := fun h =>
    absurd (h ▸ head?_sampleManifestBytes) (by decide)
  exact (if_neg (by decide)).trans (if_neg hne)

/-- The first half of each of two hashes. -/
def sampleDerive (_ : Text) (bs : Bytes) : ByteVec 32 :=
  List.Vector.ofFn fun i : Fin 32 => bs.getD (if i.val < 16 then i.val else i.val + 16) 0

def sampleSignature (key : Key) : ByteVec 64 := ⟨key.toList ++ key.toList, by simp⟩

def samplePayload : Bytes := (sampleDerive signingDomain
  ((packageHash sampleArtifact).toList ++ (packageHash sampleManifestBytes).toList)).toList

/-- Keys that have signed nothing but the package. -/
def sampleCrypto : Crypto where
  blake3 := packageHash
  deriveKey := sampleDerive
  isKey _ := true
  verify key msg sig := msg == samplePayload && sig == sampleSignature key

def sampleFingerprint : Fingerprint := fingerprint sampleHash (sampleKey 1)

theorem fingerprint_sampleKey :
    fingerprint sampleCrypto.blake3 (sampleKey 1) = sampleFingerprint := by
  unfold sampleFingerprint fingerprint PeerId.fromPublicKeyBytes
  simp only [sampleCrypto, packageHash_sampleKey]
  rfl

def sampleRaw : Manifest where
  plugin := ⟨samplePublisher ++ "/demo@1.0.0", 2, .wasm⟩
  capabilities := [("compute.cpu", .table [])]
  signature := some ⟨"9515049071ED913149A80D3BB7891FCD", defaultAlgorithm⟩

def sampleBundle (key : Key) : SignatureBundle :=
  signArtifact sampleCrypto sampleArtifact sampleManifestBytes
    ⟨sampleKey 1, fun _ => sampleSignature key⟩ 0

def bundleText (f : BundleFields) : Text :=
  "version = " ++ decimal f.version.toNat ++
  "\ncreated_at = " ++ decimal f.createdAt.toNat ++ "\n" ++
  tomlLine "publisher_fingerprint" f.publisherFingerprint ++
  tomlLine "algorithm" f.algorithm ++ tomlLine "signature" f.signature ++
  tomlLine "artifact_blake3" f.artifactBlake3 ++
  tomlLine "manifest_blake3" f.manifestBlake3

/-- A parser that knows one text. -/
def readsOnly {β : Type} (known : Text) (value : β) (text : Text) : Except Text β :=
  if text = known then .ok value else .error "invalid document"

def sampleCrates (key : Key) : Crates Unit where
  crypto := sampleCrypto
  semver := sampleSemver
  manifestToml := readsOnly sampleManifest sampleRaw
  bundleToml := readsOnly (bundleText (sampleBundle key).fields) (sampleBundle key).fields
  compile bytes := if bytes = sampleArtifact then .ok () else .error "not a component"

def sampleDirectory (key : Key) : Directory :=
  ⟨.ok sampleArtifact, .ok sampleManifestBytes,
    .ok (Text.utf8 (bundleText (sampleBundle key).fields))⟩

def sampleId : PluginId := ⟨samplePublisher, "demo", ⟨"1.0.0"⟩⟩

def sampleValidated : ValidatedManifest :=
  ⟨⟨sampleId, .sandboxed, .sandboxed, .sandboxed, [.computeCpu]⟩, .wasm, sampleRaw⟩

def sampleKernel (keyring : Keyring) : Kernel Unit := ⟨.new Broker.samplePolicy, keyring, ∅⟩

def sampleLoaded (keyring : Keyring) : Kernel Unit where
  broker := ((Broker.new Broker.samplePolicy).registerPlugin sampleValidated.toValidatedManifest 0).1
  keyring
  plugins := AList.insert sampleId ⟨.sandboxed, (), sampleId, .sandboxed⟩ ∅

theorem readsOnly_self {β : Type} (known : Text) (value : β) :
    readsOnly known value known = .ok value :=
  if_pos rfl

theorem validate_sample : validate sampleSemver sampleRaw = .ok sampleValidated := rfl

theorem parseManifest_sample (key : Key) :
    parseManifest (sampleCrates key) sampleManifestBytes = .ok sampleValidated := by
  -- the parser as a function: applied, it would be run on the text
  have htoml : (sampleCrates key).manifestToml = readsOnly sampleManifest sampleRaw := rfl
  unfold sampleManifestBytes
  exact parseManifest_utf8 (htoml ▸ readsOnly_self _ _) validate_sample

theorem readBundle_sample (key : Key) :
    readBundle (sampleCrates key) (sampleDirectory key).signature = .ok (sampleBundle key) := by
  have htoml : (sampleCrates key).bundleToml =
      readsOnly (bundleText (sampleBundle key).fields) (sampleBundle key).fields := rfl
  exact readBundle_utf8 (htoml ▸ readsOnly_self _ _)

theorem verified_sample {key : Key}
    (hkey : keyring.lookup sampleFingerprint = some ⟨sampleFingerprint, key⟩) :
    Verified sampleCrypto sampleArtifact sampleManifestBytes (sampleBundle key) keyring
      ⟨sampleFingerprint, key⟩ := by
  have hpublisher : (sampleBundle key).publisherFingerprint = sampleFingerprint :=
    fingerprint_sampleKey
  refine ⟨rfl, rfl, rfl, rfl, hpublisher ▸ hkey, rfl, ?_⟩
  simp [sampleCrypto, sampleBundle, signArtifact, signedDigest, samplePayload]

/-- The package is accepted under whatever key the keyring has for its publisher. -/
theorem loadPluginFromDir_sample {key : Key}
    (hkey : keyring.lookup sampleFingerprint = some ⟨sampleFingerprint, key⟩) :
    loadPluginFromDir (sampleCrates key) (sampleKernel keyring) (sampleDirectory key) (fun _ => 0) =
      (sampleLoaded keyring, .ok sampleId) := by
  have hverify : verifyPackage (sampleCrates key) ⟨sampleArtifact, sampleManifestBytes⟩
      sampleValidated (sampleDirectory key).signature (sampleKernel keyring).keyring = .ok () := by
    unfold verifyPackage
    rw [readBundle_sample]
    dsimp only [sampleCrates, sampleKernel]
    rw [verifyArtifact_eq_ok.2 (verified_sample hkey)]
    rfl
  rw [loadPluginFromDir_eq_install rfl (parseManifest_sample key) rfl hverify]
  rfl

def sampleKeyring : Keyring := Keyring.new.add ⟨sampleFingerprint, sampleKey 1⟩

/-- What the publisher has signed. -/
def sampleSigned (key : Key) (artifact manifest : Bytes) : Prop :=
  key = sampleKey 1 ∧ artifact = sampleArtifact ∧ manifest = sampleManifestBytes

theorem collisionFree_sample :
    CollisionFree sampleCrypto {bs | bs = sampleArtifact ∨ bs = sampleManifestBytes} := by
  have hfile : ∀ bs, bs = sampleArtifact ∨ bs = sampleManifestBytes →
      ∃ b, bs = cond b sampleArtifact sampleManifestBytes := by
    rintro bs (h | h)
    exacts [⟨true, h⟩, ⟨false, h⟩]
  have hhash : ∀ b c, cond b artifactHash manifestHash = cond c artifactHash manifestHash → b = c := by
    decide
  have hdigest : ∀ b c b' c',
      sampleDerive signingDomain ((cond b artifactHash manifestHash).toList ++
        (cond c artifactHash manifestHash).toList) =
      sampleDerive signingDomain ((cond b' artifactHash manifestHash).toList ++
        (cond c' artifactHash manifestHash).toList) → b = b' ∧ c = c' := by
    decide +kernel
  refine ⟨?_, ?_⟩
  · intro x hx y hy h
    obtain ⟨b, rfl⟩ := hfile x hx
    obtain ⟨c, rfl⟩ := hfile y hy
    simp only [sampleCrypto, packageHash_file] at h
    rw [hhash b c h]
  · rintro x ⟨a, ha, m, hm, rfl⟩ y ⟨a', ha', m', hm', rfl⟩ h
    obtain ⟨b, rfl⟩ := hfile a ha
    obtain ⟨c, rfl⟩ := hfile m hm
    obtain ⟨b', rfl⟩ := hfile a' ha'
    obtain ⟨c', rfl⟩ := hfile m' hm'
    simp only [sampleCrypto, packageHash_file] at h
    obtain ⟨rfl, rfl⟩ := hdigest b c b' c' h
    rfl

theorem unforgeable_sample : Unforgeable sampleCrypto sampleKeyring sampleSigned := by
  intro fp e he msg sig hverify
  have hkey : e.publicKey = sampleKey 1 := by
    rcases Map.lookup_insert_eq_some.1 he with ⟨-, rfl⟩ | ⟨-, he⟩
    · rfl
    · cases he
  simp only [sampleCrypto, Bool.and_eq_true, beq_iff_eq] at hverify
  exact ⟨sampleArtifact, sampleManifestBytes, ⟨hkey, rfl, rfl⟩, hverify.1⟩

theorem loadPluginFromDir_sound_sample :
    ∃ ev, Vetted (sampleCrates (sampleKey 1)) (sampleKernel sampleKeyring)
        (sampleDirectory (sampleKey 1)) (sampleLoaded sampleKeyring) sampleId ev ∧
      sampleSigned ev.entry.publicKey ev.pkg.bytes ev.pkg.manifestBytes := by
  have hkey : sampleKeyring.lookup sampleFingerprint = some ⟨sampleFingerprint, sampleKey 1⟩ :=
    AList.lookup_insert _
  obtain ⟨ev, hev, -, hsigned⟩ := loadPluginFromDir_sound _ (loadPluginFromDir_sample hkey)
  have hartifact : sampleArtifact = ev.pkg.bytes := Except.ok.inj hev.artifact_read
  have hmanifest : sampleManifestBytes = ev.pkg.manifestBytes := Except.ok.inj hev.manifest_read
  refine ⟨ev, hev, hsigned _ _ collisionFree_sample unforgeable_sample ?_ ?_⟩
  · rintro key a m ⟨-, rfl, rfl⟩
    exact ⟨.inl rfl, .inr rfl⟩
  · exact ⟨.inl hartifact.symm, .inr hmanifest.symm⟩

/-! ## Who the publisher is -/

section Authentic
variable {α : Type}

/-- The keyring tells the truth about its keys: a fingerprint leads to a key with that fingerprint, and
so the publisher of whatever is loaded is the fingerprint of the key that signed it. -/
structure Authentic (crates : Crates α) (keyring : Keyring) : Prop where
  fingerprint : ∀ {fp e}, keyring.lookup fp = some e →
    fp = Signing.fingerprint crates.crypto.blake3 e.publicKey
  publisher : ∀ {k k' : Kernel α} {dir clock id}, k.keyring = keyring →
    loadPluginFromDir crates k dir clock = (k', .ok id) →
    (∃ ev, Vetted crates k dir k' id ev) ∧ ∀ ev, Vetted crates k dir k' id ev →
      id.publisher =
        Hex.encode (Signing.fingerprint crates.crypto.blake3 ev.entry.publicKey).toList

/-- **Publishers are authentic** in a keyring that was loaded and changed exactly when each entry of
its file or of a change that was not replaced or removed later has the fingerprint of its own key. -/
theorem authentic_iff (crates : Crates α) {toml : Keyring.Toml} {file : Keyring.File}
    {entries : List TrustEntry} {keyring : Keyring}
    (hfile : Keyring.fileEntries toml file = .ok entries)
    (hload : Keyring.load toml file = .ok keyring) (ops : List Keyring.Op) :
    Authentic crates (keyring.run ops) ↔
      ∀ e, Keyring.Survives (entries.map .add ++ ops) e →
        e.fingerprint = fingerprint crates.crypto.blake3 e.publicKey := by
  rw [Keyring.run_of_load hfile hload]
  constructor
  · intro h e he
    exact h.fingerprint (Keyring.lookup_eq_some.2 ⟨rfl, he⟩)
  · intro h
    have hlookup : ∀ {fp e}, (Keyring.new.run (entries.map .add ++ ops)).lookup fp = some e →
        fp = e.fingerprint ∧ e.fingerprint = fingerprint crates.crypto.blake3 e.publicKey := by
      intro fp e hl
      obtain ⟨rfl, he⟩ := Keyring.lookup_eq_some.1 hl
      exact ⟨rfl, h e he⟩
    refine ⟨fun hl => (hlookup hl).1.trans (hlookup hl).2, ?_⟩
    intro k k' dir clock id hk hl
    refine ⟨exists_vetted hl, ?_⟩
    intro ev hev
    have htrusted := hev.verified.trusted
    rw [hk] at htrusted
    rw [hev.publisher, (hlookup htrusted).2]

end Authentic

/-! A keyring file with one entry, under the fingerprint of `sampleKey 1`. -/

def sampleFields (key : Key) : Keyring.EntryFields :=
  ⟨Hex.encode sampleFingerprint.toList, Hex.encode key.toList⟩

def keyringText (f : Keyring.EntryFields) : Text :=
  "[[entries]]\n" ++ tomlLine "fingerprint" f.fingerprint ++
  tomlLine "public_key" f.publicKey ++
  "publisher_name = \"demo\"\nadded_at = 0\nnote = \"\"\n"

def sampleFile (key : Key) : Keyring.File := some (.ok (Text.utf8 (keyringText (sampleFields key))))

def sampleToml (key : Key) : Keyring.Toml :=
  readsOnly (keyringText (sampleFields key)) [sampleFields key]

theorem fileEntries_sample (key : Key) :
    Keyring.fileEntries (sampleToml key) (sampleFile key) = .ok [⟨sampleFingerprint, key⟩] := by
  have hread : (sampleFields key).read = .ok ⟨sampleFingerprint, key⟩ := by
    unfold Keyring.EntryFields.read deserializeFpHex deserializePkHex
    simp only [sampleFields, deserializeHex_encode]
    rfl
  unfold Keyring.fileEntries sampleFile sampleToml
  simp only [Text.fromUtf8_utf8, readsOnly_self, List.mapM_cons, hread]
  rfl

theorem load_sample (key : Key) : Keyring.load (sampleToml key) (sampleFile key) =
    .ok (Keyring.new.add ⟨sampleFingerprint, key⟩) := by
  unfold Keyring.load
  rw [fileEntries_sample]
  rfl

/-- An entry with the wrong key does no harm once it is replaced. -/
theorem authentic_iff_sample : Authentic (sampleCrates (sampleKey 1)) (sampleKeyring.run
    [.add ⟨sampleFingerprint, sampleKey 2⟩, .add ⟨sampleFingerprint, sampleKey 1⟩]) := by
  refine (authentic_iff _ (fileEntries_sample (sampleKey 1)) (load_sample (sampleKey 1)) _).2 ?_
  intro e he
  have hlookup := Keyring.lookup_eq_some.2 ⟨rfl, he⟩
  rcases Map.lookup_insert_eq_some.1 hlookup with ⟨-, rfl⟩ | ⟨hother, hlookup⟩
  · exact fingerprint_sampleKey.symm
  · rcases Map.lookup_insert_eq_some.1 hlookup with ⟨hfp, -⟩ | ⟨-, hlookup⟩
    · exact absurd hfp hother
    · rcases Map.lookup_insert_eq_some.1 hlookup with ⟨hfp, -⟩ | ⟨-, hlookup⟩
      · exact absurd hfp hother
      · cases hlookup

/-- The file gives the publisher another key; what that key signs is loaded under the publisher's
name. -/
theorem loadPluginFromDir_other_key :
    ∃ keyring,
      Keyring.load (sampleToml (sampleKey 2)) (sampleFile (sampleKey 2)) = .ok keyring ∧
      keyring.lookup sampleFingerprint = some ⟨sampleFingerprint, sampleKey 2⟩ ∧
      sampleFingerprint ≠ fingerprint sampleHash (sampleKey 2) ∧
      loadPluginFromDir (sampleCrates (sampleKey 2)) (sampleKernel keyring)
        (sampleDirectory (sampleKey 2)) (fun _ => 0) = (sampleLoaded keyring, .ok sampleId) ∧
      sampleId.publisher ≠ Hex.encode (fingerprint sampleHash (sampleKey 2)).toList := by
  have hkey : (Keyring.new.add ⟨sampleFingerprint, sampleKey 2⟩).lookup sampleFingerprint =
      some ⟨sampleFingerprint, sampleKey 2⟩ := AList.lookup_insert _
  exact ⟨_, load_sample (sampleKey 2), hkey, by decide, loadPluginFromDir_sample hkey, by decide⟩

end Entanglement.Runtime.Package
