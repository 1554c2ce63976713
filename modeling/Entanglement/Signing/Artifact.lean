import Entanglement.Signing.Keyring

/-!
# Signing and verifying plugin artifacts (`entangle-signing`)

A signature bundle covers an artifact and its manifest: what is signed is a digest, in a domain of
its own, of their two hashes. `verifyArtifact_eq_ok` lists what a bundle that is accepted has passed,
and `verifyArtifact_signArtifact` says that what a trusted publisher signs is accepted. BLAKE3 and
Ed25519 are code of other crates and stand as parameters (`Crypto`).
-/

namespace Entanglement.Signing

open Lib

/-- The functions of `blake3` and `ed25519-dalek`. -/
structure Crypto where
  /-- `blake3::hash`. -/
  blake3 : Blake3
  /-- `blake3::Hasher::new_derive_key` with a context, updated with the bytes and finalized. -/
  deriveKey : Text → Bytes → ByteVec 32
  /-- `VerifyingKey::from_bytes` accepts the bytes. -/
  isKey : Key → Bool
  /-- `VerifyingKey::verify`. -/
  verify : Key → Bytes → ByteVec 64 → Bool

/-! ## Bundles -/

def signatureBundleVersion : UInt32 := 2

structure SignatureBundle where
  version : UInt32
  publisherFingerprint : Fingerprint
  algorithm : Text
  signature : ByteVec 64
  artifactBlake3 : ByteVec 32
  manifestBlake3 : ByteVec 32
  createdAt : UInt64
  deriving DecidableEq

/-- A bundle as the TOML parser delivers it, with its arrays as text. -/
structure BundleFields where
  version : UInt32
  publisherFingerprint : Text
  algorithm : Text
  signature : Text
  artifactBlake3 : Text
  manifestBlake3 : Text
  createdAt : UInt64

def deserializeBytes16Hex : Text → Except TomlError (ByteVec 16) :=
  deserializeHex 16 "expected 16-byte hex"

def deserializeBytes32Hex : Text → Except TomlError (ByteVec 32) :=
  deserializeHex 32 "expected 32-byte hex"

def deserializeBytes64Hex : Text → Except TomlError (ByteVec 64) :=
  deserializeHex 64 "expected 64-byte hex"

def BundleFields.read (f : BundleFields) : Except TomlError SignatureBundle := do
  let publisherFingerprint ← deserializeBytes16Hex f.publisherFingerprint
  let signature ← deserializeBytes64Hex f.signature
  let artifactBlake3 ← deserializeBytes32Hex f.artifactBlake3
  let manifestBlake3 ← deserializeBytes32Hex f.manifestBlake3
  .ok ⟨f.version, publisherFingerprint, f.algorithm, signature, artifactBlake3, manifestBlake3,
    f.createdAt⟩

/-- What serialization writes for a bundle. -/
def SignatureBundle.fields (b : SignatureBundle) : BundleFields where
  version := b.version
  publisherFingerprint := Hex.encode b.publisherFingerprint.toList
  algorithm := b.algorithm
  signature := Hex.encode b.signature.toList
  artifactBlake3 := Hex.encode b.artifactBlake3.toList
  manifestBlake3 := Hex.encode b.manifestBlake3.toList
  createdAt := b.createdAt

/-- A bundle is read back from what is written for it. -/
theorem SignatureBundle.read_fields (b : SignatureBundle) : b.fields.read = .ok b := by
  unfold BundleFields.read fields deserializeBytes16Hex deserializeBytes32Hex deserializeBytes64Hex
  simp only [deserializeHex_encode]
  rfl

/-! ## Signing and verifying -/

inductive VerificationError
  | badSignature
  | unknownPublisher
  | artifactHashMismatch (actualHex expectedHex : Text)
  | unsupportedAlgorithm (algorithm : Text)
  | manifestHashMismatch (actualHex expectedHex : Text)
  | publisherMismatch (manifestPublisher signerFingerprint : Text)
  | unsupportedBundleVersion (version : UInt32)
  deriving DecidableEq

def signingDomain : Text := "entangle-signing 2026 artifact+manifest bundle v2"

variable (crypto : Crypto)

/-- The digest that is signed. -/
def signedDigest (artifactBlake3 manifestBlake3 : ByteVec 32) : ByteVec 32 :=
  crypto.deriveKey signingDomain (artifactBlake3.toList ++ manifestBlake3.toList)

/-- The digest that is signed for an artifact and a manifest. -/
def payload (artifact manifest : Bytes) : Bytes :=
  (signedDigest crypto (crypto.blake3 artifact) (crypto.blake3 manifest)).toList

/-- `IdentityKeyPair`, as far as it is used: the public key, and `sign`. -/
structure KeyPair where
  publicKey : Key
  sign : Bytes → ByteVec 64

def signArtifact (artifact manifest : Bytes) (keypair : KeyPair) (createdAt : UInt64) :
    SignatureBundle where
  version := signatureBundleVersion
  publisherFingerprint := fingerprint crypto.blake3 keypair.publicKey
  algorithm := "ed25519"
  signature := keypair.sign (payload crypto artifact manifest)
  artifactBlake3 := crypto.blake3 artifact
  manifestBlake3 := crypto.blake3 manifest
  createdAt

def verifyArtifact (artifact manifest : Bytes) (bundle : SignatureBundle) (keyring : Keyring) :
    Except VerificationError TrustEntry :=
  if bundle.version ≠ signatureBundleVersion then
    .error (.unsupportedBundleVersion bundle.version)
  else if crypto.blake3 artifact ≠ bundle.artifactBlake3 then
    .error (.artifactHashMismatch (Hex.encode (crypto.blake3 artifact).toList)
      (Hex.encode bundle.artifactBlake3.toList))
  else if crypto.blake3 manifest ≠ bundle.manifestBlake3 then
    .error (.manifestHashMismatch (Hex.encode (crypto.blake3 manifest).toList)
      (Hex.encode bundle.manifestBlake3.toList))
  else if bundle.algorithm ≠ "ed25519" then .error (.unsupportedAlgorithm bundle.algorithm)
  else
    match keyring.lookup bundle.publisherFingerprint with
    | none => .error .unknownPublisher
    | some entry =>
      if !crypto.isKey entry.publicKey then .error .badSignature
      else if crypto.verify entry.publicKey
          (signedDigest crypto bundle.artifactBlake3 bundle.manifestBlake3).toList bundle.signature then
        .ok entry
      else .error .badSignature

/-- What verification of a bundle has established: it has the version and the algorithm of today and
the hashes of this artifact and this manifest, and the key of the entry at its fingerprint verifies
its signature. -/
structure Verified (artifact manifest : Bytes) (bundle : SignatureBundle) (keyring : Keyring)
    (entry : TrustEntry) : Prop where
  version : bundle.version = 2
  algorithm : bundle.algorithm = "ed25519"
  artifact_hash : crypto.blake3 artifact = bundle.artifactBlake3
  manifest_hash : crypto.blake3 manifest = bundle.manifestBlake3
  trusted : keyring.lookup bundle.publisherFingerprint = some entry
  key : crypto.isKey entry.publicKey = true
  signature : crypto.verify entry.publicKey
    (signedDigest crypto bundle.artifactBlake3 bundle.manifestBlake3).toList bundle.signature = true

variable {crypto}

theorem verifyArtifact_eq_ok {artifact manifest : Bytes} {bundle : SignatureBundle}
    {keyring : Keyring} {entry : TrustEntry} :
    verifyArtifact crypto artifact manifest bundle keyring = .ok entry ↔
      Verified crypto artifact manifest bundle keyring entry := by
  unfold verifyArtifact
  constructor
  · intro h
    split_ifs at h with hversion hartifact hmanifest halgorithm
    split at h
    · cases h
    · next e htrusted =>
      split_ifs at h with hkey hsignature
      cases h
      exact ⟨not_not.1 hversion, not_not.1 halgorithm, not_not.1 hartifact, not_not.1 hmanifest,
        htrusted, by simpa using hkey, hsignature⟩
  · intro h
    have hversion : bundle.version = signatureBundleVersion := h.version
    rw [if_neg (not_not.2 hversion), if_neg (not_not.2 h.artifact_hash),
      if_neg (not_not.2 h.manifest_hash), if_neg (not_not.2 h.algorithm), h.trusted]
    dsimp only
    rw [if_neg (by simp [h.key]), if_pos h.signature]

/-- What a trusted publisher signs is accepted, and ascribed to the entry of that publisher. -/
theorem verifyArtifact_signArtifact {keypair : KeyPair} {keyring : Keyring}
    (hkey : crypto.isKey keypair.publicKey = true)
    (hsign : ∀ msg, crypto.verify keypair.publicKey msg (keypair.sign msg) = true)
    (htrusted : keyring.lookup (fingerprint crypto.blake3 keypair.publicKey) =
      some ⟨fingerprint crypto.blake3 keypair.publicKey, keypair.publicKey⟩)
    (artifact manifest : Bytes) (createdAt : UInt64) :
    verifyArtifact crypto artifact manifest (signArtifact crypto artifact manifest keypair createdAt)
      keyring = .ok ⟨fingerprint crypto.blake3 keypair.publicKey, keypair.publicKey⟩ :=
  verifyArtifact_eq_ok.2 ⟨rfl, rfl, rfl, rfl, htrusted, hkey, hsign _⟩

end Entanglement.Signing
