import Entanglement.Lib.Fair
import Entanglement.Pairing.Session

/-!
# Pairing by copy and paste (`entangle-pairing`, `session.rs`)

The two sides of a pairing whose envelopes the users carry from one device to the other. The
initiator shows a code and waits for the responder's proof (`Initiator.handleAccept`); the responder,
whose user types the code, proves it (`Responder.accept`) and waits for the counter-signature
(`Responder.handleFinalize`). Only the last of the three looks at the state it is called in.

* `paired_of_honest`: two devices of which one typed the other's code end up paired.
* `single_use_of_inOrder`: **main result**, in every sequence of calls of which none of the first two
  comes too late, a session keeps its peer, and a failed one is of no use any more.
-/

namespace Entanglement.Pairing

open Lib

/-- `PAIRING_TIMEOUT_SECS`. -/
def pairingTimeoutSecs : Nat := 300

/-- The errors of this flow; `hex` stands for the text of its error. -/
inductive PairingError
  | envelope (why : Text)
  | verifyFailed
  | expired (secs : UInt64)
  | codeMismatch
  | hex (e : Hex.FromHexError)
  deriving DecidableEq

structure PairingRequest where
  initiatorPeerId : PeerId
  initiatorPubkeyHex : Text
  initiatorDisplayName : Text
  codeCommit : ByteVec 32
  nonce : Nonce
  createdAtSecs : UInt64
  deriving DecidableEq

def makeCodeCommit (blake3 : Blake3) (code : PairingCode) (initiatorPubkey : Key) : ByteVec 32 :=
  blake3 (toLeBytes code.1 ++ initiatorPubkey.toList)

/-- `hex::decode` into an array of `n` bytes; `why` is the complaint about another length. -/
def decodeArray (n : Nat) (why : Nat → Text) (hexStr : Text) : Except PairingError (ByteVec n) :=
  match Hex.decode (Text.utf8 hexStr) with
  | .error e => .error (.hex e)
  | .ok bytes => if h : bytes.length = n then .ok ⟨bytes, h⟩ else .error (.envelope (why bytes.length))

@[simp] theorem decodeArray_encode {n : Nat} (why : Nat → Text) (bs : ByteVec n) :
    decodeArray n why (Hex.encode bs.toList) = .ok bs := by
  unfold decodeArray
  rw [Hex.decode_encode]
  simp only [List.Vector.toList_length, dite_true]
  rfl

theorem decodeArray_eq_ok {n : Nat} {why : Nat → Text} {hexStr : Text} {bs : ByteVec n}
    (h : decodeArray n why hexStr = .ok bs) : Hex.decode (Text.utf8 hexStr) = .ok bs.toList := by
  unfold decodeArray at h
  split at h
  · cases h
  · next bytes hbytes =>
    split at h
    · cases h
      exact hbytes
    · cases h

/-- The text is a signature of the payload by the key, which is one. -/
def Signs (X : Crates) (key : Key) (payload : Bytes) (signatureHex : Text) : Prop :=
  X.validKey key = true ∧ ∃ sig : Signature,
    Hex.decode (Text.utf8 signatureHex) = .ok sig.toList ∧ X.verify key payload sig = true

def fingerprintFromHex (blake3 : Blake3) (pubkeyHex : Text) : Except PairingError ShortFingerprint :=
  (decodeArray 32 (fun n => "pubkey_hex must decode to 32 bytes, got " ++ decimal n)
    pubkeyHex).map (ShortFingerprint.fromPublicKey blake3)

/-! ## The initiator -/

inductive InitiatorState
  | pending
  | completed (p : PairedPeer)
  | failed (why : Text)
  deriving DecidableEq

structure Initiator (X : Crates) where
  keypair : X.Secret
  displayName : Text
  code : PairingCode
  nonce : Nonce
  createdAt : UInt64
  state : InitiatorState

namespace Initiator

variable {X : Crates}

/-- `Initiator::start`, with the code, the nonce and the time that it draws. -/
def start (keypair : X.Secret) (displayName : Text) (code : PairingCode) (nonce : Nonce)
    (now : UInt64) : Initiator X :=
  ⟨keypair, displayName, code, nonce, now, .pending⟩

variable (I : Initiator X)

def request : PairingRequest where
  initiatorPeerId := .fromPublicKeyBytes X.blake3 (X.publicKey I.keypair)
  initiatorPubkeyHex := Hex.encode (X.publicKey I.keypair).toList
  initiatorDisplayName := I.displayName
  codeCommit := makeCodeCommit X.blake3 I.code (X.publicKey I.keypair)
  nonce := I.nonce
  createdAtSecs := I.createdAt

/-- The time is over; a clock that was set back does not count. -/
def Expired (now : UInt64) : Prop := pairingTimeoutSecs < now.toNat - I.createdAt.toNat

instance (now : UInt64) : Decidable (I.Expired now) := inferInstanceAs (Decidable (_ < _))

def payload : Bytes := signingPayload I.code I.nonce

/-- Steps 2 to 4 of `handle_accept`: whom the envelope proves. -/
def checkAccept (accept : PairingAccept) : Except PairingError PairedPeer := do
  let key ← decodeArray 32 (fun n => "pubkey wrong length: " ++ decimal n)
    accept.responderPubkeyHex
  if X.validKey key = false then
    .error (.envelope "pubkey: invalid public key bytes")
  else do
    let sig ← decodeArray 64 (fun n => "sig wrong length: " ++ decimal n) accept.signatureHex
    if X.verify key I.payload sig = false then .error .verifyFailed
    else if PeerId.fromPublicKeyBytes X.blake3 key ≠ accept.responderPeerId then
      .error (.envelope "responder peer_id != fingerprint(pubkey)")
    else .ok {
      peerId := .fromPublicKeyBytes X.blake3 key
      pubkeyHex := accept.responderPubkeyHex
      displayName := accept.responderDisplayName
      fingerprint := .fromPublicKey X.blake3 key }

/-- The envelope proves the code: it holds a key, its fingerprint, and its signature of the code. -/
def Proves (accept : PairingAccept) : Prop :=
  ∃ key : Key, Hex.decode (Text.utf8 accept.responderPubkeyHex) = .ok key.toList ∧
    Signs X key I.payload accept.signatureHex ∧
    accept.responderPeerId = .fromPublicKeyBytes X.blake3 key

theorem proves_of_checkAccept {accept : PairingAccept} {peer : PairedPeer}
    (h : I.checkAccept accept = .ok peer) : I.Proves accept := by
  unfold checkAccept at h
  obtain ⟨key, hkey, h⟩ := except_bind_eq_ok.1 h
  split at h
  · cases h
  next hvalid =>
  obtain ⟨sig, hsig, h⟩ := except_bind_eq_ok.1 h
  split at h
  · cases h
  next hverify =>
  split at h
  · cases h
  next hid =>
  exact ⟨key, decodeArray_eq_ok hkey, ⟨Bool.eq_true_of_not_eq_false hvalid, sig,
    decodeArray_eq_ok hsig, Bool.eq_true_of_not_eq_false hverify⟩, (not_not.1 hid).symm⟩

/-- The counter-signature. -/
def finalize (now : UInt64) : PairingFinalize :=
  ⟨Hex.encode (X.sign I.keypair I.payload).toList, now⟩

/-- `Initiator::handle_accept`, which reads the clock twice. -/
def handleAccept (now later : UInt64) (accept : PairingAccept) :
    Initiator X × Except PairingError PairingFinalize :=
  if I.Expired now then
    ({ I with state := .failed "expired" }, .error (.expired (now - I.createdAt)))
  else
    match I.checkAccept accept with
    | .error e => (I, .error e)
    | .ok peer => ({ I with state := .completed peer }, .ok (I.finalize later))

def completed : Option PairedPeer :=
  match I.state with
  | .completed p => some p
  | _ => none

def failed : Option Text :=
  match I.state with
  | .failed why => some why
  | _ => none

end Initiator

/-! ## The responder -/

inductive ResponderState
  | pending
  | accepted (payload : Bytes)
  | completed (p : PairedPeer)
  | failed (why : Text)
  deriving DecidableEq

structure Responder (X : Crates) where
  keypair : X.Secret
  displayName : Text
  request : PairingRequest
  state : ResponderState

namespace Responder

variable {X : Crates}

def receive (now : UInt64) (keypair : X.Secret) (displayName : Text) (request : PairingRequest) :
    Except PairingError (Responder X) :=
  if pairingTimeoutSecs < now.toNat - request.createdAtSecs.toNat then
    .error (.expired (now - request.createdAtSecs))
  else do
    let key ← decodeArray 32 (fun _ => "initiator pubkey wrong length")
      request.initiatorPubkeyHex
    if PeerId.fromPublicKeyBytes X.blake3 key ≠ request.initiatorPeerId then
      .error (.envelope "initiator peer_id != fingerprint(pubkey)")
    else .ok ⟨keypair, displayName, request, .pending⟩

variable (R : Responder X)

/-- The key of the request, as `accept` and `handle_finalize` decode it. -/
def initiatorKey : Except PairingError Key :=
  decodeArray 32 (fun _ => "len") R.request.initiatorPubkeyHex

/-- The typed code is the one that the request commits to. -/
def Opens (typedCode : PairingCode) : Prop :=
  ∃ key, R.initiatorKey = .ok key ∧ makeCodeCommit X.blake3 typedCode key = R.request.codeCommit

/-- The envelope that proves the code. -/
def proof (now : UInt64) (typedCode : PairingCode) : PairingAccept where
  responderPeerId := .fromPublicKeyBytes X.blake3 (X.publicKey R.keypair)
  responderPubkeyHex := Hex.encode (X.publicKey R.keypair).toList
  responderDisplayName := R.displayName
  signatureHex := Hex.encode (X.sign R.keypair (signingPayload typedCode R.request.nonce)).toList
  createdAtSecs := now

def accept (now : UInt64) (typedCode : PairingCode) : Responder X × Except PairingError PairingAccept :=
  match R.initiatorKey with
  | .error e => (R, .error e)
  | .ok key =>
    if makeCodeCommit X.blake3 typedCode key ≠ R.request.codeCommit then
      ({ R with state := .failed "code mismatch" }, .error .codeMismatch)
    else
      ({ R with state := .accepted (signingPayload typedCode R.request.nonce) },
        .ok (R.proof now typedCode))

/-- What `handle_finalize` does in the state that it wants. -/
def checkFinalize (payload : Bytes) (finalize : PairingFinalize) : Except PairingError PairedPeer := do
  let key ← R.initiatorKey
  if X.validKey key = false then .error (.envelope "pub: invalid public key bytes")
  else do
    let sig ← decodeArray 64 (fun _ => "sig len") finalize.signatureHex
    if X.verify key payload sig = false then .error .verifyFailed
    else .ok {
      peerId := R.request.initiatorPeerId
      pubkeyHex := R.request.initiatorPubkeyHex
      displayName := R.request.initiatorDisplayName
      fingerprint := .fromPublicKey X.blake3 key }

/-- The envelope holds a signature of the accepted code, by the key of the request. -/
def Proves (finalize : PairingFinalize) : Prop :=
  ∃ (payload : Bytes) (key : Key), R.state = .accepted payload ∧
    Hex.decode (Text.utf8 R.request.initiatorPubkeyHex) = .ok key.toList ∧
    Signs X key payload finalize.signatureHex

def handleFinalize (finalize : PairingFinalize) : Responder X × Except PairingError PairedPeer :=
  match R.state with
  | .accepted payload =>
    match R.checkFinalize payload finalize with
    | .error e => (R, .error e)
    | .ok peer => ({ R with state := .completed peer }, .ok peer)
  | _ => (R, .error (.envelope "not in Accepted state"))

def completed : Option PairedPeer :=
  match R.state with
  | .completed p => some p
  | _ => none

end Responder

/-! ## Two honest devices -/

section Honest
variable {X : Crates} (hX : X.Lawful) {I : Initiator X} {R : Responder X}

/-- Whom the initiator pairs with, and whom the responder. -/
def Responder.peer (R : Responder X) : PairedPeer where
  peerId := .fromPublicKeyBytes X.blake3 (X.publicKey R.keypair)
  pubkeyHex := Hex.encode (X.publicKey R.keypair).toList
  displayName := R.displayName
  fingerprint := .fromPublicKey X.blake3 (X.publicKey R.keypair)

def Initiator.peer (I : Initiator X) : PairedPeer where
  peerId := .fromPublicKeyBytes X.blake3 (X.publicKey I.keypair)
  pubkeyHex := Hex.encode (X.publicKey I.keypair).toList
  displayName := I.displayName
  fingerprint := .fromPublicKey X.blake3 (X.publicKey I.keypair)

theorem Responder.receive_request {now : UInt64} (hnow : ¬ I.Expired now) (keypair : X.Secret)
    (displayName : Text) :
    Responder.receive now keypair displayName I.request =
      .ok ⟨keypair, displayName, I.request, .pending⟩ := by
  refine (if_neg hnow).trans ?_
  refine except_bind_eq_ok.2 ⟨_, decodeArray_encode _ _, ?_⟩
  exact if_neg (not_not.2 rfl)

theorem Responder.accept_of_request (hrequest : R.request = I.request) (now : UInt64) :
    R.accept now I.code = ({ R with state := .accepted I.payload }, .ok (R.proof now I.code)) := by
  have hkey : R.initiatorKey = .ok (X.publicKey I.keypair) := by
    rw [initiatorKey, hrequest]
    exact decodeArray_encode ..
  rw [accept, hkey]
  simp only [hrequest, Initiator.request, ne_eq, not_true_eq_false, if_false, Initiator.payload]

include hX

/-- The initiator believes whoever has signed its code. -/
theorem Initiator.handleAccept_proof (hnonce : R.request.nonce = I.nonce) {now : UInt64}
    (hnow : ¬ I.Expired now) (typedAt later : UInt64) :
    I.handleAccept now later (R.proof typedAt I.code) =
      ({ I with state := .completed R.peer }, .ok (I.finalize later)) := by
  have hcheck : I.checkAccept (R.proof typedAt I.code) = .ok R.peer := by
    simp only [checkAccept, Responder.proof, decodeArray_encode, bind, Except.bind,
      hX.validKey_publicKey, hnonce, payload, hX.verify_sign, Bool.true_eq_false, if_false, ne_eq,
      not_true_eq_false, Responder.peer]
  rw [handleAccept, if_neg hnow, hcheck]

theorem Responder.handleFinalize_finalize (hrequest : R.request = I.request)
    (hstate : R.state = .accepted I.payload) (later : UInt64) :
    R.handleFinalize (I.finalize later) = ({ R with state := .completed I.peer }, .ok I.peer) := by
  have hcheck : R.checkFinalize I.payload (I.finalize later) = .ok I.peer := by
    simp only [checkFinalize, initiatorKey, hrequest, Initiator.request, Initiator.finalize,
      decodeArray_encode, bind, Except.bind, hX.validKey_publicKey, hX.verify_sign,
      Bool.true_eq_false, if_false, Initiator.peer]
  rw [handleFinalize, hstate]
  simp only [hcheck]

end Honest

/-! ## Sequences of calls -/

/-- An initiator and a responder. -/
structure Devices (X : Crates) where
  initiator : Initiator X
  responder : Responder X

/-- A call, with what the clock shows and the envelope or code that the user brings. -/
inductive DeviceCall
  | request
  | handleAccept (now later : UInt64) (accept : PairingAccept)
  | accept (now : UInt64) (typedCode : PairingCode)
  | handleFinalize (finalize : PairingFinalize)

def devices (X : Crates) : Lts (Devices X) DeviceCall where
  init s := s.initiator.state = .pending ∧ s.responder.state = .pending
  next s
    | .request => some s
    | .handleAccept now later accept =>
      some { s with initiator := (s.initiator.handleAccept now later accept).1 }
    | .accept now typedCode => some { s with responder := (s.responder.accept now typedCode).1 }
    | .handleFinalize finalize =>
      some { s with responder := (s.responder.handleFinalize finalize).1 }

/-- An initiator that has completed gets no further proof of its code and no call after its time; one
that has failed gets no proof at a time that is not over. The responder is not asked to accept once it
has completed, nor, once it has failed, with the right code. -/
def InOrder {X : Crates} (s : Devices X) : DeviceCall → Prop
  | .handleAccept now _ accept =>
    (s.initiator.completed ≠ none → ¬ s.initiator.Expired now ∧ ¬ s.initiator.Proves accept) ∧
      (s.initiator.failed ≠ none → ¬ s.initiator.Expired now → ¬ s.initiator.Proves accept)
  | .accept _ typedCode =>
    s.responder.completed = none ∧
      ∀ why, s.responder.state = .failed why → ¬ s.responder.Opens typedCode
  | .request => True
  | .handleFinalize _ => True

section Calls
variable {X : Crates} {finalize : PairingFinalize}

section Next
variable {I I' : Initiator X} {R R' : Responder X}

theorem next_handleAccept {now later : UInt64} {accept : PairingAccept}
    {reply : Except PairingError PairingFinalize}
    (h : I.handleAccept now later accept = (I', reply)) :
    (devices X).next ⟨I, R⟩ (.handleAccept now later accept) = some ⟨I', R⟩ := by
  simp only [devices, h]

theorem next_accept {now : UInt64} {typedCode : PairingCode}
    {reply : Except PairingError PairingAccept} (h : R.accept now typedCode = (R', reply)) :
    (devices X).next ⟨I, R⟩ (.accept now typedCode) = some ⟨I, R'⟩ := by
  simp only [devices, h]

theorem next_handleFinalize {reply : Except PairingError PairedPeer}
    (h : R.handleFinalize finalize = (R', reply)) :
    (devices X).next ⟨I, R⟩ (.handleFinalize finalize) = some ⟨I, R'⟩ := by
  simp only [devices, h]

end Next

/-- **Two honest devices end up paired** with each other, if the code is typed as it is shown and the
proof comes back in time. -/
theorem paired_of_honest (hX : X.Lawful) {I : Initiator X} {R : Responder X}
    (hI : I.state = .pending) (hR : R.state = .pending) (hrequest : R.request = I.request)
    (typedAt now later : UInt64) (hnow : ¬ I.Expired now) :
    (devices X).Path InOrder ⟨I, R⟩
      [.request, .accept typedAt I.code, .handleAccept now later (R.proof typedAt I.code),
        .handleFinalize (I.finalize later)]
      ⟨{ I with state := .completed R.peer }, { R with state := .completed I.peer }⟩ := by
  have haccept := Responder.accept_of_request hrequest typedAt
  have hproof := Initiator.handleAccept_proof hX (congrArg PairingRequest.nonce hrequest) hnow
    typedAt later
  have hfinalize := Responder.handleFinalize_finalize hX (R := { R with state := .accepted I.payload })
    hrequest rfl later
  refine .cons trivial rfl (.cons ?_ (next_accept haccept) (.cons ?_ (next_handleAccept hproof)
    (.cons trivial (next_handleFinalize hfinalize) .nil)))
  · refine ⟨by rw [Responder.completed, hR], ?_⟩
    intro why hwhy
    rw [hR] at hwhy
    cases hwhy
  · refine ⟨fun hp => absurd ?_ hp, fun hf => absurd ?_ hf⟩
    · rw [Initiator.completed, hI]
    · rw [Initiator.failed, hI]

namespace Initiator
variable {I : Initiator X} {now : UInt64} (later : UInt64) (accept : PairingAccept)

theorem failed_handleAccept (h : I.Expired now) :
    (I.handleAccept now later accept).1.failed = some "expired".toList ∧
      (I.handleAccept now later accept).2 = .error (.expired (now - I.createdAt)) := by
  unfold handleAccept
  rw [if_pos h]
  exact ⟨rfl, rfl⟩

/-- An envelope that proves nothing is refused in time, and changes nothing. -/
theorem handleAccept_of_not_proves (hnow : ¬ I.Expired now) {accept : PairingAccept}
    (h : ¬ I.Proves accept) : ∃ e, I.handleAccept now later accept = (I, .error e) := by
  cases hcheck : I.checkAccept accept with
  | error e => exact ⟨e, by rw [handleAccept, if_neg hnow, hcheck]⟩
  | ok peer => exact absurd (I.proves_of_checkAccept hcheck) h

/-- A proof is accepted in time, from whom it proves. -/
theorem handleAccept_eq_ok {later : UInt64} {accept : PairingAccept}
    (h : (I.handleAccept now later accept).2 = .ok finalize) :
    ¬ I.Expired now ∧ ∃ peer, I.checkAccept accept = .ok peer ∧
      (I.handleAccept now later accept).1 = { I with state := .completed peer } := by
  unfold handleAccept at h ⊢
  split at h
  · cases h
  next hfresh =>
  cases hcheck : I.checkAccept accept with
  | error e =>
    rw [hcheck] at h
    cases h
  | ok peer =>
    rw [if_neg hfresh]
    exact ⟨hfresh, peer, rfl, rfl⟩

/-- A call that comes in order fails on an initiator that has failed, which it leaves failed. -/
theorem handleAccept_of_failed (hf : I.failed ≠ none)
    (hC : ¬ I.Expired now → ¬ I.Proves accept) :
    (I.handleAccept now later accept).1.failed ≠ none ∧
      ∃ e, (I.handleAccept now later accept).2 = .error e := by
  by_cases hnow : I.Expired now
  · obtain ⟨hfailed, herror⟩ := failed_handleAccept later accept hnow
    exact ⟨hfailed ▸ Option.some_ne_none _, _, herror⟩
  · obtain ⟨e, hcall⟩ := handleAccept_of_not_proves later hnow (hC hnow)
    rw [hcall]
    exact ⟨hf, e, rfl⟩

theorem completed_eq_none_of_failed (h : I.failed ≠ none) : I.completed = none := by
  unfold failed at h
  unfold completed
  split at h
  · next hstate => rw [hstate]
  · exact absurd rfl h

end Initiator

namespace Responder
variable {R : Responder X} (now : UInt64) {typedCode : PairingCode}

/-- With a wrong code, or a key that cannot be read, the call fails and at most marks the failure. -/
theorem accept_of_not_opens (h : ¬ R.Opens typedCode) :
    ((R.accept now typedCode).1 = R ∨
        (R.accept now typedCode).1 = { R with state := .failed "code mismatch" }) ∧
      ∃ e, (R.accept now typedCode).2 = .error e := by
  cases hkey : R.initiatorKey with
  | error e =>
    have hcall : R.accept now typedCode = (R, .error e) := by
      rw [accept, hkey]
    rw [hcall]
    exact ⟨.inl rfl, e, rfl⟩
  | ok key =>
    have hcommit : makeCodeCommit X.blake3 typedCode key ≠ R.request.codeCommit :=
      fun heq => h ⟨key, hkey, heq⟩
    have hcall : R.accept now typedCode =
        ({ R with state := .failed "code mismatch" }, .error .codeMismatch) := by
      rw [accept, hkey]
      exact if_pos hcommit
    rw [hcall]
    exact ⟨.inr rfl, .codeMismatch, rfl⟩

/-- Only an accepted session looks at a finalize. -/
theorem handleFinalize_of_not_accepted (h : ∀ payload, R.state ≠ .accepted payload)
    (finalize : PairingFinalize) :
    R.handleFinalize finalize = (R, .error (.envelope "not in Accepted state")) := by
  unfold handleFinalize
  split
  · next payload hstate => exact absurd hstate (h payload)
  · rfl

theorem handleFinalize_eq_ok {peer : PairedPeer} (h : (R.handleFinalize finalize).2 = .ok peer) :
    ∃ payload, R.state = .accepted payload ∧ R.checkFinalize payload finalize = .ok peer := by
  unfold handleFinalize at h
  split at h
  · next payload hstate =>
    split at h
    · cases h
    · next hcheck =>
      cases h
      exact ⟨payload, hstate, hcheck⟩
  · cases h

theorem proves_of_handleFinalize {finalize : PairingFinalize} {peer : PairedPeer}
    (h : (R.handleFinalize finalize).2 = .ok peer) : R.Proves finalize := by
  obtain ⟨payload, hstate, h⟩ := handleFinalize_eq_ok h
  unfold checkFinalize at h
  obtain ⟨key, hkey, h⟩ := except_bind_eq_ok.1 h
  split at h
  · cases h
  next hvalid =>
  obtain ⟨sig, hsig, h⟩ := except_bind_eq_ok.1 h
  split at h
  · cases h
  next hverify =>
  exact ⟨payload, key, hstate, decodeArray_eq_ok hkey, Bool.eq_true_of_not_eq_false hvalid, sig,
    decodeArray_eq_ok hsig, Bool.eq_true_of_not_eq_false hverify⟩

theorem completed_eq_some {p : PairedPeer} : R.completed = some p ↔ R.state = .completed p := by
  unfold completed
  cases R.state <;> simp

end Responder

/-- What the later state keeps of the earlier one. -/
structure Keeps (s s' : Devices X) : Prop where
  initiatorCompleted : ∀ p, s.initiator.completed = some p → s'.initiator.completed = some p
  initiatorFailed : s.initiator.failed ≠ none → s'.initiator.failed ≠ none
  responderCompleted : ∀ p, s.responder.completed = some p → s'.responder.completed = some p
  responderFailed : (∃ why, s.responder.state = .failed why) → ∃ why, s'.responder.state = .failed why

theorem Keeps.refl (s : Devices X) : Keeps s s := ⟨fun _ h => h, fun h => h, fun _ h => h, fun h => h⟩

theorem Keeps.trans {s m s' : Devices X} (h : Keeps s m) (h' : Keeps m s') : Keeps s s' where
  initiatorCompleted p hp := h'.initiatorCompleted p (h.initiatorCompleted p hp)
  initiatorFailed hf := h'.initiatorFailed (h.initiatorFailed hf)
  responderCompleted p hp := h'.responderCompleted p (h.responderCompleted p hp)
  responderFailed hf := h'.responderFailed (h.responderFailed hf)

theorem keeps_step {s s' : Devices X} {c : DeviceCall} (hC : InOrder s c)
    (h : (devices X).next s c = some s') : Keeps s s' := by
  cases c with
  | request =>
    cases h
    exact .refl s
  | handleAccept now later accept =>
    cases h
    obtain ⟨hdone, hover⟩ := hC
    refine ⟨?_, fun hf => ?_, fun _ hp => hp, fun hf => hf⟩
    · intro p hp
      obtain ⟨hnow, hproves⟩ := hdone (hp ▸ Option.some_ne_none p)
      obtain ⟨e, hcall⟩ := Initiator.handleAccept_of_not_proves later hnow hproves
      rw [hcall]
      exact hp
    · exact (Initiator.handleAccept_of_failed later accept hf (hover hf)).1
  | accept now typedCode =>
    cases h
    obtain ⟨hopen, hwrong⟩ := hC
    refine ⟨fun _ hp => hp, fun hf => hf, ?_, ?_⟩
    · intro p hp
      rw [hopen] at hp
      cases hp
    · rintro ⟨why, hf⟩
      rcases (Responder.accept_of_not_opens now (hwrong why hf)).1 with heq | heq
      · exact ⟨why, (congrArg Responder.state heq).trans hf⟩
      · exact ⟨_, congrArg Responder.state heq⟩
  | handleFinalize finalize =>
    cases h
    refine ⟨fun _ hp => hp, fun hf => hf, ?_, ?_⟩
    · intro p hp
      have hstate := Responder.completed_eq_some.1 hp
      rw [Responder.handleFinalize_of_not_accepted (by rw [hstate]; nofun) finalize]
      exact hp
    · rintro ⟨why, hf⟩
      rw [Responder.handleFinalize_of_not_accepted (by rw [hf]; nofun) finalize]
      exact ⟨why, hf⟩

/-- **Copy-paste pairing sessions are single-use**, in every sequence of calls that come in order: a
peer once paired stays, and once a session has failed no call returns `Ok` and there is no peer. -/
theorem single_use_of_inOrder (X : Crates) (s s' : Devices X) (calls : List DeviceCall)
    (hrun : (devices X).Path InOrder s calls s') :
    (∀ p, s.initiator.completed = some p → s'.initiator.completed = some p) ∧
    (∀ p, s.responder.completed = some p → s'.responder.completed = some p) ∧
    (s.initiator.failed ≠ none → s'.initiator.completed = none ∧
      ∀ now later accept, InOrder s' (.handleAccept now later accept) →
        ∃ e, (s'.initiator.handleAccept now later accept).2 = .error e) ∧
    ((∃ why, s.responder.state = .failed why) → s'.responder.completed = none ∧
      (∀ now typedCode, InOrder s' (.accept now typedCode) →
        ∃ e, (s'.responder.accept now typedCode).2 = .error e) ∧
      ∀ finalize, ∃ e, (s'.responder.handleFinalize finalize).2 = .error e) := by
  have hkeeps : Keeps s s' := hrun.invariant (I := Keeps s)
    (fun _ _ _ hm hC hnext => hm.trans (keeps_step hC hnext)) (.refl s)
  refine ⟨hkeeps.initiatorCompleted, hkeeps.responderCompleted, ?_, ?_⟩
  · intro hf
    have hf' := hkeeps.initiatorFailed hf
    refine ⟨Initiator.completed_eq_none_of_failed hf', ?_⟩
    intro now later accept hC
    exact (Initiator.handleAccept_of_failed later accept hf' (hC.2 hf')).2
  · intro hf
    obtain ⟨why, hf'⟩ := hkeeps.responderFailed hf
    refine ⟨by rw [Responder.completed, hf'], ?_, ?_⟩
    · intro now typedCode hC
      exact (Responder.accept_of_not_opens now (hC.2 why hf')).2
    · intro finalize
      rw [Responder.handleFinalize_of_not_accepted (by rw [hf']; nofun) finalize]
      exact ⟨_, rfl⟩

end Calls

namespace Sample

noncomputable def initiator : Initiator crates :=
  .start host.keypair "studio" code nonce 0

noncomputable def responder (keypair : Fin 3) : Responder crates :=
  ⟨keypair, "laptop", initiator.request, .pending⟩

/-- Once both have completed, a further finalize changes nothing. -/
theorem single_use_of_inOrder_paired :
    ∃ calls s s', (devices crates).Path InOrder ⟨initiator, responder 1⟩ calls s ∧
      (devices crates).Path InOrder s [.handleFinalize (initiator.finalize 0)] s' ∧
      s.initiator.completed = some (responder 1).peer ∧
      s'.initiator.completed = some (responder 1).peer ∧
      s'.responder.completed = some initiator.peer := by
  have hpaired := paired_of_honest crates_lawful (I := initiator) (R := responder 1) rfl rfl rfl
    0 300 300 (by decide)
  have hmore : (devices crates).Path InOrder
      ⟨{ initiator with state := .completed (responder 1).peer },
        { responder 1 with state := .completed initiator.peer }⟩
      [.handleFinalize (initiator.finalize 0)] _ :=
    .cons trivial rfl .nil
  obtain ⟨hinitiator, hresponder, -, -⟩ := single_use_of_inOrder crates _ _ _ hmore
  exact ⟨_, _, _, hpaired, hmore, rfl, hinitiator _ rfl, hresponder _ rfl⟩

/-- Whatever has become of the initiator, in the first five minutes it believes every proof. -/
theorem handleAccept_proof (state : InitiatorState) (keypair : Fin 3) :
    ({ initiator with state := state } : Initiator crates).handleAccept 0 0
        ((responder keypair).proof 0 code) =
      ({ initiator with state := .completed (responder keypair).peer },
        .ok (initiator.finalize 0)) := by
  have hnow : ¬ initiator.Expired 0 := by decide
  exact Initiator.handleAccept_proof crates_lawful (I := { initiator with state := state })
    (R := responder keypair) rfl hnow 0 0

/-- A second proof of the code replaces the peer, and a session that has expired completes once the
clock is set back. -/
theorem handleAccept_again :
    ∃ s s' s'' finalize,
      (devices crates).exec ⟨initiator, responder 1⟩
        [.handleAccept 0 0 ((responder 1).proof 0 code)] = some s ∧
      s.initiator.completed = some (responder 1).peer ∧
      (devices crates).next s (.handleAccept 0 0 ((responder 2).proof 0 code)) = some s' ∧
      s'.initiator.completed = some (responder 2).peer ∧ (responder 2).peer ≠ (responder 1).peer ∧
      (devices crates).exec ⟨initiator, responder 1⟩
        [.handleAccept 301 301 ((responder 1).proof 0 code)] = some s'' ∧
      s''.initiator.failed = some "expired".toList ∧
      (s''.initiator.handleAccept 0 0 ((responder 1).proof 0 code)).2 = .ok finalize := by
  have hover : initiator.Expired 301 := by decide
  have hfailed := Initiator.failed_handleAccept 301 ((responder 1).proof 0 code) hover
  refine ⟨_, _, _, initiator.finalize 0,
    Lts.exec_cons_eq_some.2 ⟨_, next_handleAccept (handleAccept_proof .pending 1), rfl⟩, rfl,
    next_handleAccept (handleAccept_proof _ 2), rfl, ?_, rfl, hfailed.1, ?_⟩
  · intro heq
    exact absurd (congrArg PairedPeer.pubkeyHex heq) (by decide)
  · exact congrArg Prod.snd (handleAccept_proof (.failed "expired") 1)

end Sample

end Entanglement.Pairing
