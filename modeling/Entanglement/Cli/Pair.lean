import Entanglement.Pairing.Manual
import Entanglement.Peers.Store

/-!
# Pairing by copy and paste from the command line (`entangle-cli`, `cmd/pair.rs`)

`entangle pair --manual` writes the two flows of `session.rs` out a second time, with blobs of text for
the envelopes and the peer store at the end. Both are cut where they wait for the user: the initiator
for the ACCEPT blob (`ManualInitiator.start`, `finish`), the responder for the code and for the
FINALIZE blob (`ManualResponder.receive`, `accept`, `ManualAccepted.finish`). What the clock, the
terminal and the files yield comes as an argument.

`Carried.initiator_stores` and `Carried.responder_stores`: if the users carry the blobs over and the
REQUEST is read in time, each device ends up in the other's store.
-/

namespace Entanglement.Cli

open Lib Pairing Peers

/-! ## Errors -/

/-- An `anyhow::Error`. A message can end with the text of a pairing error. -/
inductive AnyhowError
  | msg (text : Text)
  | display (text : Text) (e : PairingError)
  | hex (e : Hex.FromHexError)
  | store (e : PeerStoreError)
  | context (why : Text) (cause : AnyhowError)
  deriving DecidableEq

def bail {α : Type} (text : Text) : Except AnyhowError α := .error (.msg text)

def withContext {α : Type} (why : Text) (r : Except AnyhowError α) : Except AnyhowError α :=
  r.mapError (.context why)

/-! ## Blobs -/

/-- The crates beyond those of the protocol: `base64`, `serde_json` and `toml`, with the texts of their
errors. -/
structure BlobCrates where
  encode : Bytes → Text
  decode : Bytes → Except Text Bytes
  request : Bytes → Except Text PairingRequest
  accept : Bytes → Except Text PairingAccept
  finalize : Bytes → Except Text PairingFinalize
  toml : Toml

def requestJson (r : PairingRequest) : Json.Object :=
  [("initiator_peer_id", bytesJson r.initiatorPeerId.bytes),
    ("initiator_pubkey_hex", .str r.initiatorPubkeyHex),
    ("initiator_display_name", .str r.initiatorDisplayName),
    ("code_commit", bytesJson r.codeCommit),
    ("nonce", bytesJson r.nonce),
    ("created_at_secs", .num r.createdAtSecs.toNat)]

/-- An envelope on its own, without the tag that a wire message has. -/
def acceptJson (a : PairingAccept) : Json.Object := (PairingWire.accept a).toJson.tail

def finalizeJson (f : PairingFinalize) : Json.Object := (PairingWire.finalize f).toJson.tail

/-- `serde_json::to_vec`. -/
def jsonVec (json : Json.Object) : Bytes := Text.utf8 (Json.Object.print json)

def prefixReq : Text := "ENT-REQ-"

def prefixAcc : Text := "ENT-ACC-"

def prefixFin : Text := "ENT-FIN-"

/-- `encode_blob`, of an envelope with this JSON. -/
def encodeBlob (B : BlobCrates) (tag : Text) (json : Json.Object) : Text :=
  tag ++ B.encode (jsonVec json)

def decodeBlob {α : Type} (B : BlobCrates) (fromSlice : Bytes → Except Text α) (tag blob : Text) :
    Except AnyhowError α :=
  let blob := Text.trim blob
  if tag.isPrefixOf blob then
    match B.decode (Text.utf8 (blob.drop tag.length)) with
    | .error e => .error (.context "base64 decode failed — is the blob intact?" (.msg e))
    | .ok json => withContext "JSON decode failed" ((fromSlice json).mapError .msg)
  else bail ("blob must start with `" ++ tag ++ "`")

/-- What the reading of a blob meets: the file, if one is given, and the lines of the terminal. -/
structure BlobInput where
  file : Except Text Text
  stdin : List (Except Text Text)

/-- The loop of `read_blob_line`. -/
def readLine : List (Except Text Text) → Except AnyhowError Text
  | [] => bail "EOF reached without receiving a blob"
  | .error e :: _ => .error (.context "stdin read" (.msg e))
  | .ok line :: rest => if Text.trim line ≠ [] then .ok (Text.trim line) else readLine rest

def readBlobLine (file : Option Text) (input : BlobInput) : Except AnyhowError Text :=
  match file with
  | some path =>
    match input.file with
    | .error e => .error (.context ("read blob file " ++ path) (.msg e))
    | .ok s => .ok (Text.trim s)
  | none => readLine input.stdin

/-- `write_blob`, with the result of the write if it goes to a file: the blob as it goes out. -/
def writeBlob (file : Option Text) (written : Except Text Unit) (blob : Text) :
    Except AnyhowError Text :=
  match file, written with
  | some path, .error e => .error (.context ("write blob to " ++ path) (.msg e))
  | _, _ => .ok blob

/-! ## What both flows do -/

/-- The arguments that the flows read. -/
structure PairArgs where
  displayName : Option Text
  code : Option Text
  codeArg : Option Text
  emitRequestFile : Option Text
  consumeAcceptFile : Option Text
  emitFinalizeFile : Option Text
  requestFile : Option Text
  emitAcceptFile : Option Text
  consumeFinalizeFile : Option Text

def PairArgs.suppliedCode (args : PairArgs) : Option Text := args.code.or args.codeArg

/-- What a flow starts with: its arguments, the result of `ensure_identity` and two variables of the
environment. -/
structure Launch (X : Crates) where
  args : PairArgs
  identity : Except AnyhowError X.Secret
  hostname : Option Text
  computername : Option Text

def resolveDisplayName {X : Crates} (l : Launch X) : Text :=
  l.args.displayName.getD ((l.hostname.or l.computername).getD "unknown")

/-- `EXPIRY_SECS`. -/
def expirySecs : Nat := 300

/-- The key in an envelope of `who`. -/
def decodePubkey (who hexStr : Text) : Except AnyhowError Key :=
  match Hex.decode (Text.utf8 hexStr) with
  | .error e => .error (.context (who ++ " pubkey_hex not valid hex") (.hex e))
  | .ok bytes =>
    if h : bytes.length = 32 then .ok ⟨bytes, h⟩
    else bail (who ++ " pubkey must be 32 bytes")

/-- `Signature::from_hex`. -/
def signatureFromHex (hexStr : Text) : Option Signature :=
  match Hex.decode (Text.utf8 hexStr) with
  | .error _ => none
  | .ok bytes => if h : bytes.length = 64 then some ⟨bytes, h⟩ else none

/-- The signature in an envelope of `who`; `malformed` is the complaint if it cannot be read. -/
def checkSignature (X : Crates) (who malformed : Text) (key : Key) (payload : Bytes)
    (signatureHex : Text) : Except AnyhowError Unit :=
  if X.validKey key = false then
    bail ("invalid " ++ who ++ " pubkey: invalid public key bytes")
  else
    match signatureFromHex signatureHex with
    | none => bail malformed
    | some sig =>
      if X.verify key payload sig = false then
        bail "signature verification failed — pairing aborted"
      else .ok ()

/-- What the peer store meets: the file when it is opened, and when it is written. -/
structure Disk where
  atOpen : Option Text
  openFault : LoadFault
  file : Option Text
  faults : Faults

/-- `persist`, with the store that it opens, and the file afterwards. -/
def persist (blake3 : Blake3) (toml : Toml) (now : UInt64) (disk : Disk) (peerId : PeerId)
    (pubkeyHex name : Text) : Except AnyhowError PeerStore × Option Text :=
  match TrustedPeer.newValidated blake3 now peerId pubkeyHex name with
  | .error e => (.error (.context
      "refusing to store a peer whose id does not match its public key" (.store e)), disk.file)
  | .ok peer =>
    match loadMap blake3 toml disk.openFault disk.atOpen with
    | .error e => (.error (.store e), disk.file)
    | .ok map =>
      match lockedMutate blake3 toml disk.faults map disk.file (.add peer) with
      | (.error e, _, file) => (.error (.store e), file)
      | (.ok _, map, file) => (.ok ⟨map⟩, file)

/-- How a flow ends: its result, the last blob that it wrote, and the file of the store. -/
structure Outcome where
  result : Except AnyhowError PeerStore
  emitted : Option Text
  file : Option Text

/-! ## The initiator -/

/-- What `run_manual_initiator` holds while it waits for the ACCEPT blob. -/
structure ManualInitiator (X : Crates) where
  args : PairArgs
  keypair : X.Secret
  displayName : Text
  code : PairingCode
  nonce : Nonce
  createdAt : UInt64

namespace ManualInitiator

variable {X : Crates} (B : BlobCrates) (w : ManualInitiator X)

def request : PairingRequest where
  initiatorPeerId := .fromPublicKeyBytes X.blake3 (X.publicKey w.keypair)
  initiatorPubkeyHex := Hex.encode (X.publicKey w.keypair).toList
  initiatorDisplayName := w.displayName
  codeCommit := makeCodeCommit X.blake3 w.code (X.publicKey w.keypair)
  nonce := w.nonce
  createdAtSecs := w.createdAt

def payload : Bytes := signingPayload w.code w.nonce

def finalize (now : UInt64) : PairingFinalize :=
  ⟨Hex.encode (X.sign w.keypair w.payload).toList, now⟩

/-- `run_manual_initiator` up to the reading of the ACCEPT blob, and the REQUEST blob. -/
def start (l : Launch X) (code : PairingCode) (nonce : Nonce) (now : UInt64)
    (written : Except Text Unit) : Except AnyhowError (ManualInitiator X × Text) := do
  let keypair ← l.identity
  let w : ManualInitiator X := ⟨l.args, keypair, resolveDisplayName l, code, nonce, now⟩
  let blob ← writeBlob l.args.emitRequestFile written (encodeBlob B prefixReq (requestJson w.request))
  return (w, blob)

/-- The ACCEPT blob, if it proves the code. Unlike `Initiator::handle_accept`, this looks neither at the
clock nor at the peer id. -/
def checkAccept (input : BlobInput) : Except AnyhowError (Key × PairingAccept) := do
  let raw ← readBlobLine w.args.consumeAcceptFile input
  let accept ← withContext "failed to decode ACCEPT blob" (decodeBlob B B.accept prefixAcc raw)
  let key ← decodePubkey "responder" accept.responderPubkeyHex
  checkSignature X "responder" "signature mismatch: malformed hex in ACCEPT" key
    w.payload accept.signatureHex
  return (key, accept)

/-- The rest of `run_manual_initiator`: what it does once the ACCEPT blob is proved. -/
def finish (input : BlobInput) (finalizedAt : UInt64) (written : Except Text Unit)
    (pairedAt : UInt64) (disk : Disk) : Outcome :=
  match w.checkAccept B input with
  | .error e => ⟨.error e, none, disk.file⟩
  | .ok (key, accept) =>
    match writeBlob w.args.emitFinalizeFile written
      (encodeBlob B prefixFin (finalizeJson (w.finalize finalizedAt))) with
    | .error e => ⟨.error e, none, disk.file⟩
    | .ok blob =>
      let stored := persist X.blake3 B.toml pairedAt disk (.fromPublicKeyBytes X.blake3 key)
        accept.responderPubkeyHex accept.responderDisplayName
      ⟨stored.1, some blob, stored.2⟩

end ManualInitiator

/-- What a run of the initiator meets, in the order in which it meets it. -/
structure InitiatorRun (X : Crates) where
  launch : Launch X
  code : PairingCode
  nonce : Nonce
  createdAt : UInt64
  requestWritten : Except Text Unit
  input : BlobInput
  finalizedAt : UInt64
  finalizeWritten : Except Text Unit
  pairedAt : UInt64
  disk : Disk

def runManualInitiator {X : Crates} (B : BlobCrates) (r : InitiatorRun X) : Outcome :=
  match ManualInitiator.start B r.launch r.code r.nonce r.createdAt r.requestWritten with
  | .error e => ⟨.error e, none, r.disk.file⟩
  | .ok (w, _) => w.finish B r.input r.finalizedAt r.finalizeWritten r.pairedAt r.disk

/-! ## The responder -/

/-- What `run_manual_responder` holds while it waits for the code. -/
structure ManualResponder (X : Crates) where
  args : PairArgs
  keypair : X.Secret
  displayName : Text
  request : PairingRequest

/-- What it holds while it waits for the FINALIZE blob. -/
structure ManualAccepted (X : Crates) where
  args : PairArgs
  request : PairingRequest
  key : Key
  payload : Bytes

namespace ManualResponder

variable {X : Crates} (B : BlobCrates)

/-- `run_manual_responder` up to the reading of the code. -/
def receive (l : Launch X) (input : BlobInput) (now : UInt64) :
    Except AnyhowError (ManualResponder X) := do
  let keypair ← l.identity
  let raw ← readBlobLine l.args.requestFile input
  let request ← withContext "failed to decode REQUEST blob — is the blob intact?"
    (decodeBlob B B.request prefixReq raw)
  if expirySecs < now.toNat - request.createdAtSecs.toNat then
    bail "request expired (>5 min) — restart the pair flow on both sides"
  else do
    let _ ← (fingerprintFromHex X.blake3 request.initiatorPubkeyHex).mapError
      (.display "bad initiator pubkey: ")
    return ⟨l.args, keypair, resolveDisplayName l, request⟩

variable (r : ManualResponder X)

/-- The code as it was given or is typed. -/
def codeStr (typed : Except Text Text) : Except AnyhowError Text :=
  match r.args.suppliedCode with
  | some code => .ok code
  | none => (typed.map Text.trim).mapError .msg

def proof (now : UInt64) (code : PairingCode) : PairingAccept where
  responderPeerId := .fromPublicKeyBytes X.blake3 (X.publicKey r.keypair)
  responderPubkeyHex := Hex.encode (X.publicKey r.keypair).toList
  responderDisplayName := r.displayName
  signatureHex := Hex.encode (X.sign r.keypair (signingPayload code r.request.nonce)).toList
  createdAtSecs := now

/-- `run_manual_responder` between the reading of the code and that of the FINALIZE blob, and the
ACCEPT blob. -/
def accept (typed : Except Text Text) (now : UInt64) (written : Except Text Unit) :
    Except AnyhowError (ManualAccepted X × Text) := do
  let codeStr ← r.codeStr typed
  let code ← (PairingCode.fromStr codeStr).mapError fun _ =>
    .msg ("could not parse code '" ++ codeStr ++ "' as 6 digits")
  let key ← decodePubkey "initiator" r.request.initiatorPubkeyHex
  if makeCodeCommit X.blake3 code key ≠ r.request.codeCommit then
    bail "code does not match — pairing aborted (no peer added)"
  else do
    let blob ← writeBlob r.args.emitAcceptFile written
      (encodeBlob B prefixAcc (acceptJson (r.proof now code)))
    return (⟨r.args, r.request, key, signingPayload code r.request.nonce⟩, blob)

end ManualResponder
namespace ManualAccepted

variable {X : Crates} (B : BlobCrates) (a : ManualAccepted X)

def checkFinalize (input : BlobInput) : Except AnyhowError Unit := do
  let raw ← readBlobLine a.args.consumeFinalizeFile input
  let finalize ← withContext "failed to decode FINALIZE blob"
    (decodeBlob B B.finalize prefixFin raw)
  checkSignature X "initiator" "signature mismatch: malformed FINALIZE signature" a.key
    a.payload finalize.signatureHex

/-- The rest of `run_manual_responder`, which does not look at the clock again. -/
def finish (input : BlobInput) (pairedAt : UInt64) (disk : Disk) : Outcome :=
  match a.checkFinalize B input with
  | .error e => ⟨.error e, none, disk.file⟩
  | .ok () =>
    let stored := persist X.blake3 B.toml pairedAt disk (.fromPublicKeyBytes X.blake3 a.key)
      a.request.initiatorPubkeyHex a.request.initiatorDisplayName
    ⟨stored.1, none, stored.2⟩

end ManualAccepted

/-- What a run of the responder meets, in the order in which it meets it. -/
structure ResponderRun (X : Crates) where
  launch : Launch X
  requestInput : BlobInput
  receivedAt : UInt64
  typed : Except Text Text
  acceptedAt : UInt64
  acceptWritten : Except Text Unit
  input : BlobInput
  pairedAt : UInt64
  disk : Disk

def runManualResponder {X : Crates} (B : BlobCrates) (r : ResponderRun X) : Outcome :=
  match ManualResponder.receive B r.launch r.requestInput r.receivedAt with
  | .error e => ⟨.error e, none, r.disk.file⟩
  | .ok responder =>
    match responder.accept B r.typed r.acceptedAt r.acceptWritten with
    | .error e => ⟨.error e, none, r.disk.file⟩
    | .ok (a, blob) => { a.finish B r.input r.pairedAt r.disk with emitted := some blob }

/-! ## What a flow that succeeds has done -/

section Success
variable {X : Crates} {B : BlobCrates}

/-- What a call of `persist` that succeeds has done: the peer is valid, and it was added to what the
file held. -/
theorem persist_ok {blake3 : Blake3} {toml : Toml} {now : UInt64} {disk : Disk} {id : PeerId}
    {pubkeyHex name : Text} {store : PeerStore} {file : Option Text}
    (h : persist blake3 toml now disk id pubkeyHex name = (.ok store, file)) :
    (TrustedPeer.new now id pubkeyHex name).Valid blake3 ∧
      ∃ map text, loadMap blake3 toml disk.faults.load disk.file = .ok map ∧
        store.inner = map.insert id (.new now id pubkeyHex name) ∧
        saveMap toml disk.faults.write store.inner = .ok text ∧ file = some text := by
  unfold persist at h
  split at h
  · cases h
  next peer hpeer =>
  obtain ⟨⟨⟩, hvalid, hnew⟩ := except_bind_eq_ok.1 hpeer
  cases hnew
  refine ⟨hvalid, ?_⟩
  split at h
  · cases h
  split at h
  · cases h
  next hadd =>
  cases h
  unfold lockedMutate at hadd
  split at hadd
  · cases hadd
  split at hadd
  · cases hadd
  next map hload =>
  split at hadd
  · next hrun => cases hrun
  next hrun =>
  cases hrun
  split at hadd
  · cases hadd
  next text hsave =>
  cases hadd
  exact ⟨map, text, hload, rfl, hsave, rfl⟩

variable {blake3 : Blake3} {toml : Toml} {now : UInt64} {disk : Disk} {id : PeerId}
  {pubkeyHex name : Text} {store : PeerStore}

/-- What is persisted is in the store, under the name that was given. -/
theorem get_of_persist (h : (persist blake3 toml now disk id pubkeyHex name).1 = .ok store) :
    store.get id = some (.new now id pubkeyHex name) := by
  obtain ⟨-, map, -, -, hinner, -, -⟩ := persist_ok (Prod.ext h rfl)
  rw [PeerStore.get, hinner]
  exact AList.lookup_insert _

/-- Whoever opens the store next finds what is in it. -/
theorem loadMap_of_persist (htoml : toml.RoundTrips) {file : Option Text}
    (h : persist blake3 toml now disk id pubkeyHex name = (.ok store, file)) :
    ∃ map, loadMap blake3 toml .none file = .ok map ∧ Same map store.inner := by
  obtain ⟨hvalid, map, text, hload, hinner, hsave, rfl⟩ := persist_ok h
  have hsound : Sound blake3 store.inner := by
    rw [hinner]
    exact (sound_of_loadMap hload).insert hvalid
  exact loadMap_of_saveMap htoml hsound hsave

/-- An ACCEPT blob that proves the code was read, and its key with it. -/
theorem ManualInitiator.checkAccept_eq_ok {w : ManualInitiator X} {input : BlobInput} {key : Key}
    {accept : PairingAccept} (h : w.checkAccept B input = .ok (key, accept)) :
    ∃ raw, readBlobLine w.args.consumeAcceptFile input = .ok raw ∧
      decodeBlob B B.accept prefixAcc raw = .ok accept ∧
      decodePubkey "responder" accept.responderPubkeyHex = .ok key ∧
      checkSignature X "responder" "signature mismatch: malformed hex in ACCEPT" key
        w.payload accept.signatureHex = .ok () := by
  obtain ⟨raw, hread, h⟩ := except_bind_eq_ok.1 h
  obtain ⟨accept', hblob, h⟩ := except_bind_eq_ok.1 h
  obtain ⟨key', hkey, h⟩ := except_bind_eq_ok.1 h
  obtain ⟨_, hsig, h⟩ := except_bind_eq_ok.1 h
  cases h
  exact ⟨raw, hread, except_mapError_eq_ok.1 hblob, hkey, hsig⟩

/-- An initiator that succeeds has stored the device that the ACCEPT blob names. -/
theorem runManualInitiator_ok {I : InitiatorRun X}
    (h : (runManualInitiator B I).result = .ok store) :
    ∃ raw accept key, readBlobLine I.launch.args.consumeAcceptFile I.input = .ok raw ∧
      decodeBlob B B.accept prefixAcc raw = .ok accept ∧
      decodePubkey "responder" accept.responderPubkeyHex = .ok key ∧
      store.get (.fromPublicKeyBytes X.blake3 key) =
        some (.new I.pairedAt (.fromPublicKeyBytes X.blake3 key) accept.responderPubkeyHex
          accept.responderDisplayName) := by
  unfold runManualInitiator at h
  split at h
  · cases h
  next w blob hstart =>
  obtain ⟨keypair, -, hstart⟩ := except_bind_eq_ok.1 hstart
  obtain ⟨blob', -, hstart⟩ := except_bind_eq_ok.1 hstart
  cases hstart
  unfold ManualInitiator.finish at h
  split at h
  · cases h
  next key accept hcheck =>
  obtain ⟨raw, hread, hblob, hkey, -⟩ := ManualInitiator.checkAccept_eq_ok hcheck
  split at h
  · cases h
  exact ⟨raw, accept, key, hread, hblob, hkey, get_of_persist h⟩

namespace ManualResponder

/-- A responder that goes on has read a request that is not too old. -/
theorem receive_eq_ok {l : Launch X} {input : BlobInput} {now : UInt64} {r : ManualResponder X}
    (h : ManualResponder.receive B l input now = .ok r) :
    ¬ expirySecs < now.toNat - r.request.createdAtSecs.toNat ∧
      ∃ raw, readBlobLine l.args.requestFile input = .ok raw ∧
        decodeBlob B B.request prefixReq raw = .ok r.request := by
  unfold ManualResponder.receive at h
  obtain ⟨_, -, h⟩ := except_bind_eq_ok.1 h
  obtain ⟨raw, hread, h⟩ := except_bind_eq_ok.1 h
  obtain ⟨request, hblob, h⟩ := except_bind_eq_ok.1 h
  split at h
  · cases h
  next hfresh =>
  obtain ⟨_, -, h⟩ := except_bind_eq_ok.1 h
  cases h
  exact ⟨hfresh, raw, hread, except_mapError_eq_ok.1 hblob⟩

theorem accept_eq_ok {r : ManualResponder X} {typed : Except Text Text} {now : UInt64}
    {written : Except Text Unit} {a : ManualAccepted X} {blob : Text}
    (h : r.accept B typed now written = .ok (a, blob)) :
    a.request = r.request ∧
      decodePubkey "initiator" r.request.initiatorPubkeyHex = .ok a.key := by
  unfold ManualResponder.accept at h
  obtain ⟨_, -, h⟩ := except_bind_eq_ok.1 h
  obtain ⟨_, -, h⟩ := except_bind_eq_ok.1 h
  obtain ⟨key, hkey, h⟩ := except_bind_eq_ok.1 h
  split at h
  · cases h
  obtain ⟨_, -, h⟩ := except_bind_eq_ok.1 h
  cases h
  exact ⟨rfl, hkey⟩

end ManualResponder

/-- A responder that succeeds has stored the device that the REQUEST blob names. -/
theorem runManualResponder_ok {R : ResponderRun X}
    (h : (runManualResponder B R).result = .ok store) :
    ∃ raw request key, readBlobLine R.launch.args.requestFile R.requestInput = .ok raw ∧
      decodeBlob B B.request prefixReq raw = .ok request ∧
      decodePubkey "initiator" request.initiatorPubkeyHex = .ok key ∧
      store.get (.fromPublicKeyBytes X.blake3 key) =
        some (.new R.pairedAt (.fromPublicKeyBytes X.blake3 key) request.initiatorPubkeyHex
          request.initiatorDisplayName) := by
  unfold runManualResponder at h
  split at h
  · cases h
  next r hreceive =>
  split at h
  · cases h
  next a blob haccept =>
  obtain ⟨-, raw, hread, hblob⟩ := ManualResponder.receive_eq_ok hreceive
  obtain ⟨hrequest, hkey⟩ := ManualResponder.accept_eq_ok haccept
  rw [← hrequest] at hblob hkey
  unfold ManualAccepted.finish at h
  split at h
  · cases h
  exact ⟨raw, a.request, a.key, hread, hblob, hkey, get_of_persist h⟩

end Success

/-! ## Two honest devices -/

/-- What the crates promise: what is written can be read back, and blobs have no blanks. -/
structure BlobCrates.Lawful (B : BlobCrates) : Prop where
  decode_encode : ∀ bs, B.decode (Text.utf8 (B.encode bs)) = .ok bs
  encode_solid : ∀ bs, ∀ c ∈ B.encode bs, Text.isWhitespace c = false
  request_json : ∀ r, B.request (jsonVec (requestJson r)) = .ok r
  accept_json : ∀ a, B.accept (jsonVec (acceptJson a)) = .ok a
  finalize_json : ∀ f, B.finalize (jsonVec (finalizeJson f)) = .ok f
  toml_roundTrips : B.toml.RoundTrips

/-- The store can be opened and takes the peer. -/
structure Disk.Takes (blake3 : Blake3) (toml : Toml) (disk : Disk) (peer : TrustedPeer) : Prop where
  opens : ∃ map, loadMap blake3 toml disk.openFault disk.atOpen = .ok map
  locks : disk.faults.lock = false
  saves : ∃ map text, loadMap blake3 toml disk.faults.load disk.file = .ok map ∧
    saveMap toml disk.faults.write (map.insert peer.peerId peer) = .ok text

section Honest
variable {X : Crates} {B : BlobCrates} {blake3 : Blake3} {now : UInt64} {disk : Disk} {name : Text}

theorem trim_encodeBlob (hB : B.Lawful) {tag : Text}
    (htag : tag.all (!Text.isWhitespace ·) = true) (json : Json.Object) :
    Text.trim (encodeBlob B tag json) = encodeBlob B tag json := by
  apply Text.trim_eq_self_of_forall
  intro c hc
  rcases List.mem_append.1 hc with hc | hc
  · simpa using List.all_eq_true.1 htag c hc
  · exact hB.encode_solid _ c hc

theorem decodeBlob_encodeBlob (hB : B.Lawful) {α : Type} {fromSlice : Bytes → Except Text α}
    (tag : Text) (htag : tag.all (!Text.isWhitespace ·) = true) {json : Json.Object} {v : α}
    (h : fromSlice (jsonVec json) = .ok v) :
    decodeBlob B fromSlice tag (encodeBlob B tag json) = .ok v := by
  have hpre : tag.isPrefixOf (encodeBlob B tag json) = true :=
    List.isPrefixOf_iff_prefix.2 ⟨_, rfl⟩
  have hdrop : (encodeBlob B tag json).drop tag.length = B.encode (jsonVec json) :=
    List.drop_left
  simp only [decodeBlob, trim_encodeBlob hB htag, hpre, if_true, hdrop, hB.decode_encode, h,
    withContext]
  rfl

@[simp] theorem decodePubkey_encode (who : Text) (key : Key) :
    decodePubkey who (Hex.encode key.toList) = .ok key := by
  unfold decodePubkey
  rw [Hex.decode_encode]
  simp only [List.Vector.toList_length, dite_true]
  rfl

@[simp] theorem signatureFromHex_encode (sig : Signature) :
    signatureFromHex (Hex.encode sig.toList) = some sig := by
  unfold signatureFromHex
  rw [Hex.decode_encode]
  simp only [List.Vector.toList_length, dite_true]
  rfl

theorem checkSignature_sign (hX : X.Lawful) (who malformed : Text) (sk : X.Secret) (payload : Bytes) :
    checkSignature X who malformed (X.publicKey sk) payload
      (Hex.encode (X.sign sk payload).toList) = .ok () := by
  simp only [checkSignature, hX.validKey_publicKey, signatureFromHex_encode, hX.verify_sign,
    Bool.true_eq_false, if_false]

theorem persist_of_takes {toml : Toml} {key : Key}
    (h : disk.Takes blake3 toml
      (.new now (.fromPublicKeyBytes blake3 key) (Hex.encode key.toList) name)) :
    ∃ store, (persist blake3 toml now disk (.fromPublicKeyBytes blake3 key) (Hex.encode key.toList)
      name).1 = .ok store := by
  obtain ⟨⟨opened, hopen⟩, hlock, map, text, hload, hsave⟩ := h
  simp only [persist, TrustedPeer.newValidated_encode, hopen, lockedMutate, hlock, hload,
    Mutation.run, hsave]
  exact ⟨_, rfl⟩

@[simp] theorem writeBlob_ok (file : Option Text) (blob : Text) :
    writeBlob file (.ok ()) blob = .ok blob := by
  cases file <;> rfl

/-- What the initiator holds while it waits. -/
def InitiatorRun.waiting (I : InitiatorRun X) (sk : X.Secret) : ManualInitiator X :=
  ⟨I.launch.args, sk, resolveDisplayName I.launch, I.code, I.nonce, I.createdAt⟩

/-- What the responder holds once it has the initiator's request. -/
def ResponderRun.waiting (R : ResponderRun X) (sk : X.Secret) (request : PairingRequest) :
    ManualResponder X :=
  ⟨R.launch.args, sk, resolveDisplayName R.launch, request⟩

/-- What it holds once it has the initiator's code as well. -/
def ResponderRun.accepted (R : ResponderRun X) (w : ManualInitiator X) : ManualAccepted X :=
  ⟨R.launch.args, w.request, X.publicKey w.keypair, w.payload⟩

/-- Whom a device with this key and name is to others. -/
def storedAs (X : Crates) (sk : X.Secret) (name : Text) (now : UInt64) : TrustedPeer :=
  .new now (.fromPublicKeyBytes X.blake3 (X.publicKey sk)) (Hex.encode (X.publicKey sk).toList) name

/-- A run of the initiator and one of the responder whose users carry the three blobs over and type the
code as it is shown, the REQUEST in time, with nothing that fails. -/
structure Carried (B : BlobCrates) (I : InitiatorRun X) (R : ResponderRun X) (ski skr : X.Secret) :
    Prop where
  initiatorIdentity : I.launch.identity = .ok ski
  responderIdentity : R.launch.identity = .ok skr
  requestWritten : I.requestWritten = .ok ()
  request : readBlobLine R.launch.args.requestFile R.requestInput =
    .ok (encodeBlob B prefixReq (requestJson (I.waiting ski).request))
  inTime : ¬ expirySecs < R.receivedAt.toNat - I.createdAt.toNat
  code : (R.waiting skr (I.waiting ski).request).codeStr R.typed = .ok (decimal I.code.1)
  acceptWritten : R.acceptWritten = .ok ()
  accept : readBlobLine I.launch.args.consumeAcceptFile I.input = .ok (encodeBlob B prefixAcc
    (acceptJson ((R.waiting skr (I.waiting ski).request).proof R.acceptedAt I.code)))
  finalizeWritten : I.finalizeWritten = .ok ()
  initiatorDisk : I.disk.Takes X.blake3 B.toml
    (storedAs X skr (resolveDisplayName R.launch) I.pairedAt)
  finalize : readBlobLine R.launch.args.consumeFinalizeFile R.input =
    .ok (encodeBlob B prefixFin (finalizeJson ((I.waiting ski).finalize I.finalizedAt)))
  responderDisk : R.disk.Takes X.blake3 B.toml
    (storedAs X ski (resolveDisplayName I.launch) R.pairedAt)

variable {I : InitiatorRun X} {R : ResponderRun X} {ski skr : X.Secret}

theorem Carried.checkAccept (hX : X.Lawful) (hB : B.Lawful) (h : Carried B I R ski skr) :
    (I.waiting ski).checkAccept B I.input = .ok (X.publicKey skr,
      (R.waiting skr (I.waiting ski).request).proof R.acceptedAt I.code) := by
  have hblob := decodeBlob_encodeBlob hB prefixAcc rfl
    (hB.accept_json ((R.waiting skr (I.waiting ski).request).proof R.acceptedAt I.code))
  exact except_bind_eq_ok.2 ⟨_, h.accept, except_bind_eq_ok.2 ⟨_, except_mapError_eq_ok.2 hblob,
    except_bind_eq_ok.2 ⟨_, decodePubkey_encode _ _,
      except_bind_eq_ok.2 ⟨_, checkSignature_sign hX _ _ skr _, rfl⟩⟩⟩⟩

theorem Carried.receive (hB : B.Lawful) (h : Carried B I R ski skr) :
    ManualResponder.receive B R.launch R.requestInput R.receivedAt =
      .ok (R.waiting skr (I.waiting ski).request) := by
  have hblob := decodeBlob_encodeBlob hB prefixReq rfl
    (hB.request_json (I.waiting ski).request)
  have hfp : fingerprintFromHex X.blake3 (I.waiting ski).request.initiatorPubkeyHex =
      .ok (.fromPublicKey X.blake3 (X.publicKey ski)) :=
    except_map_eq_ok.2 ⟨_, decodeArray_encode _ _, rfl⟩
  refine except_bind_eq_ok.2 ⟨_, h.responderIdentity, except_bind_eq_ok.2 ⟨_, h.request,
    except_bind_eq_ok.2 ⟨_, except_mapError_eq_ok.2 hblob, ?_⟩⟩⟩
  refine (if_neg h.inTime).trans ?_
  exact except_bind_eq_ok.2 ⟨_, except_mapError_eq_ok.2 hfp, rfl⟩

theorem Carried.accept_code (h : Carried B I R ski skr) :
    (R.waiting skr (I.waiting ski).request).accept B R.typed R.acceptedAt R.acceptWritten =
      .ok (R.accepted (I.waiting ski), encodeBlob B prefixAcc
        (acceptJson ((R.waiting skr (I.waiting ski).request).proof R.acceptedAt I.code))) := by
  refine except_bind_eq_ok.2 ⟨_, h.code, except_bind_eq_ok.2 ⟨_,
    except_mapError_eq_ok.2 I.code.fromStr_decimal,
    except_bind_eq_ok.2 ⟨_, decodePubkey_encode _ _, ?_⟩⟩⟩
  refine (if_neg (not_not.2 rfl)).trans ?_
  rw [h.acceptWritten]
  exact except_bind_eq_ok.2 ⟨_, writeBlob_ok _ _, rfl⟩

theorem Carried.checkFinalize (hX : X.Lawful) (hB : B.Lawful) (h : Carried B I R ski skr) :
    (R.accepted (I.waiting ski)).checkFinalize B R.input = .ok () := by
  have hblob := decodeBlob_encodeBlob hB prefixFin rfl
    (hB.finalize_json ((I.waiting ski).finalize I.finalizedAt))
  exact except_bind_eq_ok.2 ⟨_, h.finalize, except_bind_eq_ok.2 ⟨_, except_mapError_eq_ok.2 hblob,
    checkSignature_sign hX _ _ ski _⟩⟩

theorem Carried.start (h : Carried B I R ski skr) :
    ManualInitiator.start B I.launch I.code I.nonce I.createdAt I.requestWritten =
      .ok (I.waiting ski, encodeBlob B prefixReq (requestJson (I.waiting ski).request)) := by
  rw [h.requestWritten]
  exact except_bind_eq_ok.2 ⟨_, h.initiatorIdentity, except_bind_eq_ok.2 ⟨_, writeBlob_ok _ _, rfl⟩⟩

/-- The peer is in the store of a flow that has ended like this, and in its file. -/
def Outcome.Stores (B : BlobCrates) (blake3 : Blake3) (o : Outcome) (peer : TrustedPeer) : Prop :=
  ∃ store map, o.result = .ok store ∧ store.get peer.peerId = some peer ∧
    loadMap blake3 B.toml .none o.file = .ok map ∧ Same map store.inner

theorem stores_of_persist (hB : B.Lawful) {key : Key} {o : Outcome}
    (htakes : disk.Takes blake3 B.toml
      (.new now (.fromPublicKeyBytes blake3 key) (Hex.encode key.toList) name))
    (hresult : o.result = (persist blake3 B.toml now disk (.fromPublicKeyBytes blake3 key)
      (Hex.encode key.toList) name).1)
    (hfile : o.file = (persist blake3 B.toml now disk (.fromPublicKeyBytes blake3 key)
      (Hex.encode key.toList) name).2) :
    o.Stores B blake3 (.new now (.fromPublicKeyBytes blake3 key) (Hex.encode key.toList) name) := by
  obtain ⟨store, hstore⟩ := persist_of_takes htakes
  obtain ⟨map, hload, hsame⟩ := loadMap_of_persist hB.toml_roundTrips (Prod.ext hstore hfile.symm)
  exact ⟨store, map, hresult.trans hstore, get_of_persist hstore, hload, hsame⟩

theorem Carried.initiator_finish (hX : X.Lawful) (hB : B.Lawful) (h : Carried B I R ski skr) :
    ((I.waiting ski).finish B I.input I.finalizedAt I.finalizeWritten I.pairedAt I.disk).Stores B
      X.blake3 (storedAs X skr (resolveDisplayName R.launch) I.pairedAt) := by
  apply stores_of_persist hB h.initiatorDisk
  all_goals
    simp only [ManualInitiator.finish, h.checkAccept hX hB, h.finalizeWritten, writeBlob_ok]
    rfl

theorem Carried.responder_finish (hX : X.Lawful) (hB : B.Lawful) (h : Carried B I R ski skr) :
    ((R.accepted (I.waiting ski)).finish B R.input R.pairedAt R.disk).Stores B X.blake3
      (storedAs X ski (resolveDisplayName I.launch) R.pairedAt) := by
  apply stores_of_persist hB h.responderDisk
  all_goals
    simp only [ManualAccepted.finish, h.checkFinalize hX hB]
    rfl

/-- The initiator stores the responder, whenever the ACCEPT blob comes. -/
theorem Carried.initiator_stores (hX : X.Lawful) (hB : B.Lawful) (h : Carried B I R ski skr) :
    (runManualInitiator B I).Stores B X.blake3
      (storedAs X skr (resolveDisplayName R.launch) I.pairedAt) := by
  rw [runManualInitiator, h.start]
  exact h.initiator_finish hX hB

/-- The responder stores the initiator, whenever the FINALIZE blob comes. -/
theorem Carried.responder_stores (hX : X.Lawful) (hB : B.Lawful) (h : Carried B I R ski skr) :
    (runManualResponder B R).Stores B X.blake3
      (storedAs X ski (resolveDisplayName I.launch) R.pairedAt) := by
  rw [runManualResponder, h.receive hB]
  simp only [h.accept_code]
  exact h.responder_finish hX hB

end Honest

/-! ## A concrete instance

Two devices with the crates of the protocol's instance. Blobs are in hex, the JSON can be read back
since it determines the envelope, and the file of a store holds no peer, or one of the two. -/

namespace Sample

open Pairing.Sample (crates host dialer code nonce)

theorem requestJson_injective : Function.Injective requestJson := by
  intro r s h
  simp only [requestJson, List.cons.injEq, Prod.mk.injEq, Json.Value.str.injEq, Json.Value.num.injEq,
    true_and, and_true] at h
  obtain ⟨hpeer, hkey, hname, hcommit, hnonce, hsecs⟩ := h
  obtain ⟨⟨_⟩, _, _, _, _, _⟩ := r
  obtain ⟨⟨_⟩, _, _, _, _, _⟩ := s
  cases bytesJson_inj hpeer
  cases bytesJson_inj hcommit
  cases bytesJson_inj hnonce
  cases UInt64.toNat_inj.1 hsecs
  cases hkey
  cases hname
  rfl

theorem acceptJson_injective : Function.Injective acceptJson := by
  intro a b h
  have htagged : (PairingWire.accept a).toJson = (PairingWire.accept b).toJson :=
    congrArg (List.cons _) h
  exact PairingWire.accept.inj (PairingWire.toJson_injective htagged)

theorem finalizeJson_injective : Function.Injective finalizeJson := by
  intro f g h
  have htagged : (PairingWire.finalize f).toJson = (PairingWire.finalize g).toJson :=
    congrArg (List.cons _) h
  exact PairingWire.finalize.inj (PairingWire.toJson_injective htagged)

open Classical in
/-- The value with this JSON. -/
noncomputable def readBack {α : Type} (json : α → Json.Object) (bs : Bytes) : Except Text α :=
  if h : ∃ v, jsonVec (json v) = bs then .ok h.choose else .error []

theorem readBack_jsonVec {α : Type} {json : α → Json.Object} (hjson : Function.Injective json)
    (v : α) : readBack json (jsonVec (json v)) = .ok v := by
  have h : ∃ u, jsonVec (json u) = jsonVec (json v) := ⟨v, rfl⟩
  have hv : h.choose = v :=
    hjson (Json.Object.print_injective (Text.utf8_injective h.choose_spec))
  simp only [readBack, dif_pos h, hv]

noncomputable def blobs (files : List (List TrustedPeer)) : BlobCrates where
  encode := Hex.encode
  decode bs := (Hex.decode bs).mapError fun _ => []
  request := readBack requestJson
  accept := readBack acceptJson
  finalize := readBack finalizeJson
  toml := tomlOf files

theorem blobs_lawful (files : List (List TrustedPeer)) : (blobs files).Lawful where
  decode_encode bs := except_mapError_eq_ok.2 (Hex.decode_encode bs)
  encode_solid bs c hc := by
    have hdigit : ∀ n : Fin 16, Text.isWhitespace (Hex.digit n) = false := by decide
    obtain ⟨n, rfl⟩ := Hex.exists_digit_of_mem_encode hc
    exact hdigit n
  request_json := readBack_jsonVec requestJson_injective
  accept_json := readBack_jsonVec acceptJson_injective
  finalize_json := readBack_jsonVec finalizeJson_injective
  toml_roundTrips := tomlOf_roundTrips files

def args (name : Text) : PairArgs := ⟨some name, none, none, none, none, none, none, none, none⟩

def launch (sk : crates.Secret) (name : Text) : Launch crates := ⟨args name, .ok sk, none, none⟩

/-- A line that the user pastes. -/
def pasted (blob : Text) : BlobInput := ⟨.error [], [.ok blob]⟩

/-- A store that is not there yet. -/
def blank : Disk := ⟨none, .none, none, ⟨false, .none, false⟩⟩

theorem blank_takes {blake3 : Blake3} {files : List (List TrustedPeer)} {peer : TrustedPeer}
    (h : [peer] ∈ files) : blank.Takes blake3 (tomlOf files) peer := by
  refine ⟨⟨∅, rfl⟩, rfl, ∅, decimal (files.idxOf [peer]), rfl, ?_⟩
  have hlisting : listing ((∅ : PeerMap).insert peer.peerId peer) = [peer] := rfl
  simp only [saveMap, hlisting, tomlOf, if_pos h]
  rfl

theorem readBlobLine_pasted {B : BlobCrates} (hB : B.Lawful) {c : Char} {tag : Text}
    (htag : (c :: tag).all (!Text.isWhitespace ·) = true) (json : Json.Object) :
    readBlobLine none (pasted (encodeBlob B (c :: tag) json)) = .ok (encodeBlob B (c :: tag) json) := by
  simp only [readBlobLine, pasted, readLine, trim_encodeBlob hB htag]
  exact if_pos (List.cons_ne_nil _ _)

/-- The devices while they wait, one with the first and one with the second key pair. -/
noncomputable def waiting (name : Text) : ManualInitiator crates :=
  ⟨args name, host.keypair, name, code, nonce, 0⟩

noncomputable def answering (name peerName : Text) : ManualResponder crates :=
  ⟨args name, dialer.keypair, name, (waiting peerName).request⟩

/-- What the files of the two stores can hold: the peers with these names, paired at this time. -/
noncomputable def files (name peerName : Text) (now : UInt64) : List (List TrustedPeer) :=
  [[storedAs crates host.keypair name now], [storedAs crates dialer.keypair peerName now]]

section Runs
variable (name peerName : Text) (now : UInt64)

/-- The initiator is called `name`, made its request at 0 and gets the ACCEPT blob at `now`. -/
noncomputable def initiatorRun : InitiatorRun crates where
  launch := launch host.keypair name
  code := code
  nonce := nonce
  createdAt := 0
  requestWritten := .ok ()
  input := pasted (encodeBlob (blobs (files name peerName now)) prefixAcc
    (acceptJson ((answering peerName name).proof 0 code)))
  finalizedAt := now
  finalizeWritten := .ok ()
  pairedAt := now
  disk := blank

/-- The responder is called `peerName`, proves the code at 0 and gets the FINALIZE blob at `now`. -/
noncomputable def responderRun : ResponderRun crates where
  launch := launch dialer.keypair peerName
  requestInput := pasted (encodeBlob (blobs (files name peerName now)) prefixReq
    (requestJson (waiting name).request))
  receivedAt := 0
  typed := .ok (decimal code.1)
  acceptedAt := 0
  acceptWritten := .ok ()
  input := pasted (encodeBlob (blobs (files name peerName now)) prefixFin
    (finalizeJson ((waiting name).finalize now)))
  pairedAt := now
  disk := blank

theorem carried :
    Carried (blobs (files name peerName now)) (initiatorRun name peerName now)
      (responderRun name peerName now) host.keypair dialer.keypair where
  initiatorIdentity := rfl
  responderIdentity := rfl
  requestWritten := rfl
  request := readBlobLine_pasted (blobs_lawful _) rfl _
  inTime := Nat.not_lt_zero _
  code := congrArg Except.ok (Text.trim_eq_self_of_forall fun _ hc =>
    Text.isWhitespace_of_isDigit (Text.isDigit_of_mem_decimal hc))
  acceptWritten := rfl
  accept := readBlobLine_pasted (blobs_lawful _) rfl _
  finalizeWritten := rfl
  initiatorDisk := blank_takes (List.mem_cons_of_mem _ List.mem_cons_self)
  finalize := readBlobLine_pasted (blobs_lawful _) rfl _
  responderDisk := blank_takes List.mem_cons_self

end Runs

end Sample

end Entanglement.Cli
