import Entanglement.Pairing.Wire

/-!
# The two sides of a networked pairing (`entangle-pairing`, `net.rs` and `mesh.rs`)

A host shows a code and answers frames (`HostSession.handle`); a dialer, whose user types the code,
sends them. The host's functions are given by the parts between which the state's mutex is free:
`HostState.expire`, `HostState.pair` and `HostState.recordFailedAttempt` are the locked sections,
`HostSession.examine` is what `handle_inner` and `verify_accept` decide without the lock. `handle`
composes them for a call that nothing interrupts.

What the clocks show comes as an argument: `elapsed` for the time since the session started, in
nanoseconds, and `nowSecs` for the Unix time.
-/

namespace Entanglement.Pairing

open Lib

def pairingProtocolVersion : UInt16 := 1

/-- `u32::MAX`. -/
def u32Max : Nat := 2 ^ 32 - 1

/-! ## The host's state -/

structure HostConfig where
  displayName : Text
  ttl : Nat
  maxAttempts : UInt32

inductive SessionEnd
  | paired
  | expired
  | attemptsExhausted
  deriving DecidableEq

/-- What the mutex guards. The last two fields are history variables that nothing reads: the values
written to `ended` so far, and how many failed attempts were recorded. -/
structure HostState where
  attempts : Nat
  outcome : Option PairedPeer
  ended : Option SessionEnd
  endings : List SessionEnd
  failures : Nat
  deriving DecidableEq

namespace HostState

def new : HostState := ⟨0, none, none, [], 0⟩

/-- Write `ended`. -/
def setEnded (st : HostState) (e : SessionEnd) : HostState :=
  { st with ended := some e, endings := st.endings ++ [e] }

/-- The locked section of `expire_if_due`. -/
def expire (st : HostState) : HostState × Bool :=
  match st.ended with
  | none => (st.setEnded .expired, true)
  | some e => (st, e = .expired)

/-- The locked section of `verify_accept`; `none` if the session has ended. -/
def pair (st : HostState) (paired : PairedPeer) : Option HostState :=
  match st.ended with
  | some _ => none
  | none => some { st.setEnded .paired with outcome := some paired }

/-- One more failed attempt; the counter saturates. -/
def countFailure (st : HostState) : HostState :=
  { st with attempts := min (st.attempts + 1) u32Max, failures := st.failures + 1 }

/-- The locked section of `record_failed_attempt`. -/
def recordFailedAttempt (st : HostState) (maxAttempts : Nat) (reason : RejectReason) :
    HostState × RejectReason :=
  if maxAttempts ≤ st.countFailure.attempts ∧ st.ended = none then
    (st.countFailure.setEnded .attemptsExhausted, .tooManyAttempts)
  else (st.countFailure, reason)

end HostState

/-- What a call is told about a session that has ended. -/
def SessionEnd.reason : SessionEnd → RejectReason
  | paired => .alreadyPaired
  | expired => .expired
  | attemptsExhausted => .tooManyAttempts

/-! ## The host -/

/-- The part of a session that never changes. At least one attempt is allowed. -/
structure HostSession (X : Crates) where
  keypair : X.Secret
  displayName : DisplayName
  code : PairingCode
  nonce : Nonce
  createdAtSecs : UInt64
  ttl : Nat
  maxAttempts : Nat
  maxAttempts_pos : 1 ≤ maxAttempts
  maxAttempts_le : maxAttempts ≤ u32Max

namespace HostSession

variable {X : Crates}

/-- `HostSession::new`, with the code, the nonce and the time that it draws. -/
def new (keypair : X.Secret) (config : HostConfig) (code : PairingCode) (nonce : Nonce)
    (nowSecs : UInt64) : HostSession X where
  keypair := keypair
  displayName := .ofText config.displayName
  code := code
  nonce := nonce
  createdAtSecs := nowSecs
  ttl := config.ttl
  maxAttempts := max config.maxAttempts.toNat 1
  maxAttempts_pos := Nat.le_max_right _ _
  maxAttempts_le := Nat.max_le.2 ⟨Nat.le_sub_one_of_lt config.maxAttempts.toNat_lt, by decide⟩

variable (S : HostSession X)

def localPublicKey : Key := X.publicKey S.keypair

def localPeerId : PeerId := .fromPublicKeyBytes X.blake3 S.localPublicKey

/-- What the two sides of this session sign. -/
def payload : Bytes := signingPayload S.code S.nonce

def offer : PairingOffer where
  hostPeerId := S.localPeerId
  hostPubkeyHex := Hex.encode S.localPublicKey.toList
  hostDisplayName := S.displayName.1
  nonce := S.nonce
  createdAtSecs := S.createdAtSecs

/-- The device that an accepted `Accept` of key `claimed` stands for. -/
def pairedPeer (claimed : Key) (accept : PairingAccept) : PairedPeer where
  peerId := accept.responderPeerId
  pubkeyHex := Hex.encode claimed.toList
  displayName := sanitizeDisplayName accept.responderDisplayName
  fingerprint := .fromPublicKey X.blake3 claimed

/-- The checks of `verify_accept`: the claimed key is the connection's, the peer id is its
fingerprint, and the signature over nonce and code verifies under it. Every failure is a `BadCode`.
-/
def checkProof (remoteKey : Key) (accept : PairingAccept) : Option PairedPeer :=
  match decodeKey accept.responderPubkeyHex with
  | none => none
  | some claimed =>
    if claimed ≠ remoteKey then none
    else if accept.responderPeerId ≠ .fromPublicKeyBytes X.blake3 claimed then none
    else if X.validKey claimed = false then none
    else
      match decodeSignature accept.signatureHex with
      | none => none
      | some sig =>
        if X.verify claimed S.payload sig then some (pairedPeer (X := X) claimed accept) else none

/-- What a live session makes of a frame, before it takes the lock again. -/
inductive Verdict
  | answer (response : Except RejectReason PairingWire)
  | proven (paired : PairedPeer)
  | failed (reason : RejectReason)
  deriving DecidableEq

/-- The part of `handle_inner` after the two checks of the state, up to the next lock. -/
def examine (remoteKey : Key) (frame : Bytes) : Verdict :=
  match PairingWire.decode X frame with
  | .error _ => .answer (.error .malformed)
  | .ok (.hello version) =>
    if version ≠ pairingProtocolVersion then .answer (.error .malformed)
    else .answer (.ok (.offer S.offer))
  | .ok (.accept accept) =>
    match S.checkProof remoteKey accept with
    | none => .failed .badCode
    | some paired => .proven paired
  -- A dialer has no business sending these.
  | .ok (.offer _) => .answer (.error .malformed)
  | .ok (.finalize _) => .answer (.error .malformed)
  | .ok (.rejected _) => .answer (.error .malformed)

/-- The counter-signature of a host that has recorded the peer. -/
def finalize (nowSecs : UInt64) : PairingFinalize where
  signatureHex := Hex.encode (X.sign S.keypair S.payload).toList
  createdAtSecs := nowSecs

def expireIfDue (elapsed : Nat) (st : HostState) : HostState × Bool :=
  if elapsed ≤ S.ttl then (st, false) else st.expire

def handleInner (elapsed : Nat) (nowSecs : UInt64) (remoteKey : Key) (frame : Bytes)
    (st : HostState) : HostState × Except RejectReason PairingWire :=
  match S.expireIfDue elapsed st with
  | (st, true) => (st, .error .expired)
  | (st, false) =>
    match st.ended with
    | some e => (st, .error e.reason)
    | none =>
      match S.examine remoteKey frame with
      | .answer response => (st, response)
      | .failed reason =>
        ((st.recordFailedAttempt S.maxAttempts reason).1,
          .error (st.recordFailedAttempt S.maxAttempts reason).2)
      | .proven paired =>
        match st.pair paired with
        | some st => (st, .ok (.finalize (S.finalize nowSecs)))
        | none => ((st.recordFailedAttempt S.maxAttempts .alreadyPaired).1,
            .error (st.recordFailedAttempt S.maxAttempts .alreadyPaired).2)

end HostSession

/-- The message that goes back for the result of `handle_inner`. -/
def response : Except RejectReason PairingWire → PairingWire
  | .ok wire => wire
  | .error reason => .rejected reason

/-- The reply that `handle` has in hand should its response not encode. -/
def fallbackFrame : Bytes :=
  Text.utf8 "\x7b\"msg\":\"rejected\",\"reason\":\"malformed\"\x7d"

/-- The frame that goes back. -/
def replyFrame (wire : PairingWire) : Bytes :=
  match wire.encode with
  | .ok frame => frame
  | .error _ => fallbackFrame

theorem replyFrame_eq {w : PairingWire} (h : w.encode = .ok w.toVec) : replyFrame w = w.toVec := by
  rw [replyFrame, h]

/-- A call of `handle` that no other call interrupts. -/
def HostSession.handle {X : Crates} (S : HostSession X) (elapsed : Nat) (nowSecs : UInt64)
    (remoteKey : Key) (frame : Bytes) (st : HostState) : HostState × Bytes :=
  ((S.handleInner elapsed nowSecs remoteKey frame st).1,
    replyFrame (response (S.handleInner elapsed nowSecs remoteKey frame st).2))

/-! ## The dialer -/

/-- The errors of `mesh.rs`; those of the transport come as text. -/
inductive PairingMeshError
  | transport (why : Text)
  | net (e : PairingNetError)
  | timeout (ttl : Nat)
  deriving DecidableEq

def PairingWire.wireName : PairingWire → Text
  | hello _ => "hello"
  | offer _ => "offer"
  | accept _ => "accept"
  | finalize _ => "finalize"
  | rejected _ => "rejected"

structure Dialer (X : Crates) where
  keypair : X.Secret
  displayName : DisplayName
  code : PairingCode

namespace Dialer

variable {X : Crates}

def new (keypair : X.Secret) (displayName : Text) (code : PairingCode) : Dialer X :=
  ⟨keypair, .ofText displayName, code⟩

def hello : PairingWire := .hello pairingProtocolVersion

variable (D : Dialer X)

def localPublicKey : Key := X.publicKey D.keypair

/-- `Dialer::check_offer` reads nothing of the dialer. -/
def checkOffer (blake3 : Blake3) (remoteKey : Key) (offer : PairingOffer) :
    Except PairingNetError Unit :=
  match decodeKey offer.hostPubkeyHex with
  | none => .error (.identity "host public key is not 32 hex-encoded bytes")
  | some claimed =>
    if claimed ≠ remoteKey then
      .error (.identity
        "host announced a public key that is not the one it authenticated with")
    else if offer.hostPeerId ≠ .fromPublicKeyBytes blake3 claimed then
      .error (.identity "host peer id is not the fingerprint of its public key")
    else .ok ()

def acceptFor (offer : PairingOffer) (nowSecs : UInt64) : PairingAccept where
  responderPeerId := .fromPublicKeyBytes X.blake3 D.localPublicKey
  responderPubkeyHex := Hex.encode D.localPublicKey.toList
  responderDisplayName := D.displayName.1
  signatureHex := Hex.encode (X.sign D.keypair (signingPayload D.code offer.nonce)).toList
  createdAtSecs := nowSecs

def finish (remoteKey : Key) (offer : PairingOffer) (finalize : PairingFinalize) :
    Except PairingNetError PairedPeer :=
  match checkOffer X.blake3 remoteKey offer with
  | .error e => .error e
  | .ok () =>
    if X.validKey remoteKey = false then
      .error (.identity "host key: invalid public key bytes")
    else
      match decodeSignature finalize.signatureHex with
      | none => .error (.protocol "malformed host signature")
      | some sig =>
        if X.verify remoteKey (signingPayload D.code offer.nonce) sig then
          .ok { peerId := offer.hostPeerId
                pubkeyHex := Hex.encode remoteKey.toList
                displayName := sanitizeDisplayName offer.hostDisplayName
                fingerprint := .fromPublicKey X.blake3 remoteKey }
        else .error .verifyFailed

/-- The part of `run_exchange` between its two requests: read the offer, check it, and prepare the
frame that accepts it. -/
def onOffer (remoteKey : Key) (nowSecs : UInt64) (reply : Bytes) :
    Except PairingMeshError (PairingOffer × Bytes) :=
  match PairingWire.decode X reply with
  | .error e => .error (.net e)
  | .ok (.offer offer) =>
    match checkOffer X.blake3 remoteKey offer with
    | .error e => .error (.net e)
    | .ok () =>
      match (PairingWire.accept (D.acceptFor offer nowSecs)).encode with
      | .error e => .error (.net e)
      | .ok frame => .ok (offer, frame)
  | .ok (.rejected reason) => .error (.net (.rejected reason))
  | .ok other => .error (.net (.protocol ("expected an offer, got " ++ other.wireName)))

/-- The part of `run_exchange` after its second request. -/
def onFinalize (remoteKey : Key) (offer : PairingOffer) (reply : Bytes) :
    Except PairingMeshError PairedPeer :=
  match PairingWire.decode X reply with
  | .error e => .error (.net e)
  | .ok (.finalize f) =>
    match D.finish remoteKey offer f with
    | .error e => .error (.net e)
    | .ok peer => .ok peer
  | .ok (.rejected reason) => .error (.net (.rejected reason))
  | .ok other => .error (.net (.protocol ("expected a finalize, got " ++ other.wireName)))

theorem encode_accept (offer : PairingOffer) (nowSecs : UInt64) :
    (PairingWire.accept (D.acceptFor offer nowSecs)).encode =
      .ok (PairingWire.accept (D.acceptFor offer nowSecs)).toVec :=
  PairingWire.encode_accept (by simp [acceptFor]) D.displayName.2 (by simp [acceptFor])

end Dialer

/-! ## Specifications -/

namespace Dialer

variable {X : Crates} {D : Dialer X} {k : Key} {offer : PairingOffer}

theorem checkOffer_eq_ok {blake3 : Blake3} : checkOffer blake3 k offer = .ok () ↔
    decodeKey offer.hostPubkeyHex = some k ∧ offer.hostPeerId = .fromPublicKeyBytes blake3 k := by
  unfold checkOffer
  constructor
  · intro h
    split at h
    · cases h
    · next claimed hclaimed =>
      split_ifs at h with hkey hpeer
      have hk : claimed = k := not_not.1 hkey
      subst hk
      exact ⟨hclaimed, not_not.1 hpeer⟩
  · rintro ⟨hkey, hpeer⟩
    simp [hkey, hpeer]

/-- When a dialer accepts the host's proof, and for whom. -/
theorem finish_eq_ok {f : PairingFinalize} {peer : PairedPeer} :
    D.finish k offer f = .ok peer ↔
      checkOffer X.blake3 k offer = .ok () ∧ X.validKey k = true ∧
      (∃ sig, decodeSignature f.signatureHex = some sig ∧
        X.verify k (signingPayload D.code offer.nonce) sig = true) ∧
      peer = ⟨offer.hostPeerId, Hex.encode k.toList, sanitizeDisplayName offer.hostDisplayName,
        .fromPublicKey X.blake3 k⟩ := by
  unfold finish
  constructor
  · intro h
    split at h
    · cases h
    · next hoffer =>
      split_ifs at h with hvalid
      split at h
      · cases h
      · next sig hsig =>
        split_ifs at h with hverify
        exact ⟨hoffer, by simpa using hvalid, ⟨sig, hsig, hverify⟩, (Except.ok.inj h).symm⟩
  · rintro ⟨hoffer, hvalid, ⟨sig, hsig, hverify⟩, rfl⟩
    simp [hoffer, hvalid, hsig, hverify]

theorem onFinalize_eq_ok {reply : Bytes} {peer : PairedPeer} :
    D.onFinalize k offer reply = .ok peer ↔
      ∃ f, PairingWire.decode X reply = .ok (.finalize f) ∧ D.finish k offer f = .ok peer := by
  unfold onFinalize
  constructor
  · intro h
    split at h <;> try cases h
    next f hf =>
      split at h
      · cases h
      · next p hp => cases h; exact ⟨f, hf, hp⟩
  · rintro ⟨f, hf, hp⟩
    simp [hf, hp]

end Dialer

namespace HostSession

variable {X : Crates} {S : HostSession X}

/-- When a proof is accepted, and for whom. -/
theorem checkProof_eq_some {k : Key} {a : PairingAccept} {p : PairedPeer} :
    S.checkProof k a = some p ↔
      decodeKey a.responderPubkeyHex = some k ∧
      a.responderPeerId = .fromPublicKeyBytes X.blake3 k ∧ X.validKey k = true ∧
      (∃ sig, decodeSignature a.signatureHex = some sig ∧ X.verify k S.payload sig = true) ∧
      pairedPeer (X := X) k a = p := by
  unfold checkProof
  constructor
  · intro h
    split at h
    · cases h
    · next claimed hclaimed =>
      split_ifs at h with hkey hpeer hvalid
      split at h
      · cases h
      · next sig hsig =>
        split_ifs at h with hverify
        have hk : claimed = k := not_not.1 hkey
        subst hk
        exact ⟨hclaimed, not_not.1 hpeer, by simpa using hvalid, ⟨sig, hsig, hverify⟩,
          Option.some.inj h⟩
  · rintro ⟨hclaimed, hpeer, hvalid, ⟨sig, hsig, hverify⟩, rfl⟩
    simp [hclaimed, hpeer, hvalid, hsig, hverify]

/-- Only an `Accept` can prove anything. -/
theorem examine_eq_proven {k : Key} {frame : Bytes} {p : PairedPeer} :
    S.examine k frame = .proven p ↔
      ∃ a, PairingWire.decode X frame = .ok (.accept a) ∧ S.checkProof k a = some p := by
  unfold examine
  constructor
  · intro h
    split at h <;> try cases h
    · split at h <;> cases h
    · next a ha =>
      split at h
      · cases h
      · next paired hp => cases h; exact ⟨a, ha, hp⟩
  · rintro ⟨a, ha, hp⟩
    simp [ha, hp]

/-- Only an `Accept` can fail as an attempt. -/
theorem accept_of_examine_eq_failed {k : Key} {frame : Bytes} {r : RejectReason}
    (h : S.examine k frame = .failed r) : ∃ a, PairingWire.decode X frame = .ok (.accept a) := by
  unfold examine at h
  split at h <;> try cases h
  · split at h <;> cases h
  · next a ha => exact ⟨a, ha⟩

theorem encode_offer : (PairingWire.offer S.offer).encode = .ok (PairingWire.offer S.offer).toVec :=
  PairingWire.encode_offer (by simp [offer]) S.displayName.2

theorem encode_finalize (nowSecs : UInt64) : (PairingWire.finalize (S.finalize nowSecs)).encode =
    .ok (PairingWire.finalize (S.finalize nowSecs)).toVec :=
  PairingWire.encode_finalize (by simp [finalize])

/-- A direct answer is an offer or a rejection, and encodes. -/
theorem examine_answer {k : Key} {frame : Bytes} {r : Except RejectReason PairingWire}
    (h : S.examine k frame = .answer r) :
    (response r).encode = .ok (response r).toVec ∧ ∀ f, response r ≠ .finalize f := by
  have hrejected : ∀ reason : RejectReason, (response (.error reason)).encode =
      .ok (response (.error reason)).toVec ∧ ∀ f, response (.error reason) ≠ .finalize f :=
    fun reason => ⟨PairingWire.encode_rejected reason, fun f hf => by cases hf⟩
  unfold examine at h
  split at h
  · cases h; exact hrejected _
  · split at h
    · cases h; exact hrejected _
    · cases h; exact ⟨encode_offer, fun f hf => by cases hf⟩
  · split at h <;> cases h
  all_goals cases h; exact hrejected _

/-! The branches of `handle`, by what the state and the frame are. -/

section Handle

variable {elapsed : Nat} (nowSecs : UInt64) {k : Key} {frame : Bytes} {st st' : HostState}

theorem handle_expired (hdue : S.expireIfDue elapsed st = (st', true)) :
    S.handle elapsed nowSecs k frame st = (st', replyFrame (.rejected .expired)) := by
  simp [handle, handleInner, hdue, response]

theorem handle_ended {e : SessionEnd} (hdue : S.expireIfDue elapsed st = (st, false))
    (he : st.ended = some e) :
    S.handle elapsed nowSecs k frame st = (st, replyFrame (.rejected e.reason)) := by
  simp [handle, handleInner, hdue, he, response]

/-- A session that is over, or due, refuses every frame. -/
theorem handle_not_live (h : ¬ (elapsed ≤ S.ttl ∧ st.ended = none)) :
    S.handle elapsed nowSecs k frame st =
      match st.ended with
      | none => (st.setEnded .expired, replyFrame (.rejected .expired))
      | some e => (st, replyFrame (.rejected e.reason)) := by
  cases he : st.ended with
  | none =>
    have hdue : S.expireIfDue elapsed st = (st.setEnded .expired, true) := by
      rw [expireIfDue, if_neg fun httl => h ⟨httl, he⟩, HostState.expire, he]
    exact handle_expired nowSecs hdue
  | some e =>
    by_cases httl : elapsed ≤ S.ttl
    · exact handle_ended nowSecs (if_pos httl) he
    · have hdue : S.expireIfDue elapsed st = (st, decide (e = .expired)) := by
        rw [expireIfDue, if_neg httl, HostState.expire, he]
      by_cases hexpired : e = .expired
      · rw [hexpired] at hdue ⊢
        exact handle_expired nowSecs hdue
      · rw [decide_eq_false hexpired] at hdue
        exact handle_ended nowSecs hdue he

variable (httl : elapsed ≤ S.ttl) (he : st.ended = none)

include httl he

theorem handle_answer {r : Except RejectReason PairingWire} (hx : S.examine k frame = .answer r) :
    S.handle elapsed nowSecs k frame st = (st, replyFrame (response r)) := by
  simp [handle, handleInner, expireIfDue, httl, he, hx]

theorem handle_failed {r : RejectReason} (hx : S.examine k frame = .failed r) :
    S.handle elapsed nowSecs k frame st = ((st.recordFailedAttempt S.maxAttempts r).1,
      replyFrame (.rejected (st.recordFailedAttempt S.maxAttempts r).2)) := by
  simp [handle, handleInner, expireIfDue, httl, he, hx, response]

theorem handle_proven {p : PairedPeer} (hx : S.examine k frame = .proven p) :
    S.handle elapsed nowSecs k frame st = ({ st.setEnded .paired with outcome := some p },
      replyFrame (.finalize (S.finalize nowSecs))) := by
  simp [handle, handleInner, expireIfDue, httl, he, hx, HostState.pair, response]

end Handle

/-! An honest dialer's frames. -/

section Honest

variable (hX : X.Lawful) {k : Key}

include hX

theorem examine_hello :
    S.examine k Dialer.hello.toVec = .answer (.ok (.offer S.offer)) := by
  have hdecode := (PairingWire.decode_of_encode hX (PairingWire.encode_hello pairingProtocolVersion)).1
  unfold examine Dialer.hello
  rw [hdecode]
  rfl

/-- The proof of a dialer whose user typed the session's code and who was offered its nonce. -/
theorem examine_accept {D : Dialer X} (offer : PairingOffer) (nowSecs : UInt64)
    (hcode : D.code = S.code) (hnonce : offer.nonce = S.nonce) :
    S.examine D.localPublicKey (PairingWire.accept (D.acceptFor offer nowSecs)).toVec =
      .proven (pairedPeer (X := X) D.localPublicKey (D.acceptFor offer nowSecs)) := by
  have hdecode := (PairingWire.decode_of_encode hX (D.encode_accept offer nowSecs)).1
  have hverify : X.verify D.localPublicKey S.payload
      (X.sign D.keypair (signingPayload D.code offer.nonce)) = true := by
    rw [payload, ← hcode, ← hnonce]
    exact hX.verify_sign _ _
  exact examine_eq_proven.2 ⟨_, hdecode, checkProof_eq_some.2 ⟨decodeKey_encode _, rfl,
    hX.validKey_publicKey _, ⟨_, decodeSignature_encode _, hverify⟩, rfl⟩⟩

/-- The host's offer, read by a dialer that has reached the host. -/
theorem onOffer_offer (D : Dialer X) (nowSecs : UInt64) :
    D.onOffer S.localPublicKey nowSecs (replyFrame (.offer S.offer)) =
      .ok (S.offer, (PairingWire.accept (D.acceptFor S.offer nowSecs)).toVec) := by
  have hdecode := (PairingWire.decode_of_encode hX (encode_offer (S := S))).1
  have hcheck : Dialer.checkOffer X.blake3 S.localPublicKey S.offer = .ok () :=
    Dialer.checkOffer_eq_ok.2 ⟨decodeKey_encode _, rfl⟩
  rw [replyFrame_eq encode_offer, Dialer.onOffer, hdecode]
  simp only [hcheck, D.encode_accept]

/-- The host's proof, read by a dialer whose user typed the host's code. -/
theorem onFinalize_finalize {D : Dialer X} (hcode : D.code = S.code) (nowSecs : UInt64) :
    D.onFinalize S.localPublicKey S.offer (replyFrame (.finalize (S.finalize nowSecs))) =
      .ok ⟨S.localPeerId, Hex.encode S.localPublicKey.toList, sanitizeDisplayName S.displayName.1,
        .fromPublicKey X.blake3 S.localPublicKey⟩ := by
  have hdecode := (PairingWire.decode_of_encode hX (encode_finalize (S := S) nowSecs)).1
  have hcheck : Dialer.checkOffer X.blake3 S.localPublicKey S.offer = .ok () :=
    Dialer.checkOffer_eq_ok.2 ⟨decodeKey_encode _, rfl⟩
  have hverify : X.verify S.localPublicKey (signingPayload D.code S.offer.nonce)
      (X.sign S.keypair S.payload) = true := by
    rw [hcode]
    exact hX.verify_sign _ _
  rw [replyFrame_eq (encode_finalize nowSecs)]
  exact Dialer.onFinalize_eq_ok.2 ⟨_, hdecode, Dialer.finish_eq_ok.2 ⟨hcheck,
    hX.validKey_publicKey _, ⟨_, decodeSignature_encode _, hverify⟩, rfl⟩⟩

end Honest

end HostSession

/-! ## A concrete instance

Ed25519 and BLAKE3 as they are on three key pairs, those of the seeds that repeat one of the bytes
1, 2 and 3, and on one payload; any other payload is its own signature, and all other messages have
the same. -/

namespace Sample

def code : PairingCode := ⟨123456, by decide⟩

def nonce : Nonce := List.Vector.replicate 32 7

def publicKey : Fin 3 → Key
  | 0 => ⟨[138, 136, 227, 221, 116, 9, 241, 149, 253, 82, 219, 45, 60, 186, 93, 114, 202, 103, 9,
      191, 29, 148, 18, 27, 243, 116, 136, 1, 180, 15, 111, 92], rfl⟩
  | 1 => ⟨[129, 57, 119, 14, 168, 125, 23, 95, 86, 163, 84, 102, 195, 76, 126, 204, 203, 141, 138,
      145, 180, 238, 55, 162, 93, 246, 15, 91, 143, 201, 179, 148], rfl⟩
  | 2 => ⟨[237, 73, 40, 198, 40, 209, 194, 198, 234, 233, 3, 56, 144, 89, 149, 97, 41, 89, 39, 58,
      92, 99, 249, 54, 54, 193, 70, 20, 172, 135, 55, 209], rfl⟩

def keyHash : Fin 3 → ByteVec 32
  | 0 => ⟨[131, 86, 26, 219, 57, 143, 216, 127, 142, 126, 216, 51, 27, 255, 47, 203, 148, 87, 51,
      204, 48, 18, 135, 156, 185, 250, 176, 121, 40, 102, 112, 98], rfl⟩
  | 1 => ⟨[30, 237, 41, 177, 101, 79, 188, 169, 70, 23, 0, 77, 121, 105, 223, 196, 101, 43, 31, 48,
      167, 168, 183, 113, 195, 72, 0, 21, 84, 131, 56, 11], rfl⟩
  | 2 => ⟨[156, 56, 13, 110, 254, 194, 236, 57, 50, 29, 135, 208, 66, 79, 234, 131, 143, 117, 42,
      132, 176, 151, 199, 19, 29, 255, 103, 205, 255, 41, 30, 241], rfl⟩

def payloadSignature : Fin 3 → Signature
  | 0 => ⟨[140, 56, 187, 234, 110, 15, 56, 186, 243, 83, 178, 45, 175, 73, 9, 84, 5, 176, 212, 219,
      195, 134, 169, 200, 155, 246, 239, 173, 146, 168, 169, 236, 227, 255, 149, 248, 227, 252,
      53, 84, 132, 34, 85, 82, 171, 127, 198, 207, 176, 86, 193, 21, 174, 234, 192, 80, 235, 133,
      243, 21, 127, 130, 245, 15], rfl⟩
  | 1 => ⟨[137, 166, 253, 120, 226, 206, 110, 234, 168, 250, 46, 58, 233, 110, 215, 219, 54, 247,
      185, 237, 232, 238, 10, 145, 56, 103, 10, 166, 40, 184, 77, 154, 148, 253, 187, 28, 29,
      124, 224, 109, 27, 73, 126, 179, 211, 76, 181, 101, 238, 105, 158, 87, 64, 179, 77, 115,
      49, 27, 29, 7, 93, 43, 75, 12], rfl⟩
  | 2 => ⟨[144, 199, 204, 23, 191, 60, 91, 3, 86, 245, 82, 76, 88, 63, 33, 80, 206, 198, 130, 37, 54,
      252, 198, 230, 203, 148, 92, 162, 121, 229, 222, 161, 52, 132, 146, 67, 147, 56, 248, 21,
      48, 110, 253, 102, 230, 146, 168, 200, 96, 159, 58, 139, 21, 130, 255, 122, 82, 163, 84,
      251, 45, 177, 82, 9], rfl⟩

/-- A payload as its own signature. -/
def plain (msg : Bytes) (h : msg.length = 64) : Signature := ⟨msg, h⟩

def sign (sk : Fin 3) (msg : Bytes) : Signature :=
  if msg = signingPayload code nonce then payloadSignature sk
  else if h : msg.length = 64 ∧ msg.getLast? = some 0 then plain msg h.1
  else List.Vector.replicate 64 255

def blake3 (bs : Bytes) : ByteVec 32 :=
  if bs = (publicKey 0).toList then keyHash 0
  else if bs = (publicKey 1).toList then keyHash 1
  else if bs = (publicKey 2).toList then keyHash 2
  else List.Vector.replicate 32 0

open Classical in
noncomputable def crates : Crates where
  Secret := Fin 3
  publicKey := publicKey
  sign := sign
  validKey k := ∃ sk, publicKey sk = k
  verify k msg sig := ∃ sk, publicKey sk = k ∧ sign sk msg = sig
  blake3 := blake3
  fromSlice bs := if h : ∃ w : PairingWire, w.toVec = bs then .ok h.choose else .error []

theorem crates_lawful : crates.Lawful where
  fromSlice_toVec w := by
    have h : ∃ v : PairingWire, v.toVec = w.toVec := ⟨w, rfl⟩
    have hw : h.choose = w := PairingWire.toVec_injective h.choose_spec
    simp only [crates, dif_pos h, hw]
  validKey_publicKey sk := decide_eq_true ⟨sk, rfl⟩
  verify_sign sk _ := decide_eq_true ⟨sk, rfl, rfl⟩

theorem sign_payload (sk : Fin 3) : sign sk (signingPayload code nonce) = payloadSignature sk :=
  if_pos rfl

/-- The signature over the payload of the instance is nobody else's and over nothing else. -/
theorem sign_eq_payloadSignature {sk sk' : Fin 3} {msg : Bytes}
    (h : sign sk' msg = payloadSignature sk) : sk' = sk ∧ msg = signingPayload code nonce := by
  have hkeys : ∀ a b, payloadSignature a = payloadSignature b → a = b := by decide
  have hlast : ∀ a, (payloadSignature a).toList.getLast? ≠ some 0 := by decide
  have hconst : ∀ a, List.Vector.replicate 64 255 ≠ payloadSignature a := by decide
  unfold sign at h
  by_cases hmsg : msg = signingPayload code nonce
  · rw [if_pos hmsg] at h
    exact ⟨hkeys _ _ h, hmsg⟩
  · rw [if_neg hmsg] at h
    by_cases hshape : msg.length = 64 ∧ msg.getLast? = some 0
    · rw [dif_pos hshape] at h
      have hbytes : msg = (payloadSignature sk).toList := congrArg List.Vector.toList h
      rw [hbytes] at hshape
      exact absurd hshape.2 (hlast sk)
    · rw [dif_neg hshape] at h
      exact absurd h (hconst sk)

/-- The default lifetime and number of attempts. -/
def config : HostConfig := ⟨"studio", 300 * 10 ^ 9, 5⟩

/-- The adversary holds the third key pair. -/
def adversary : Fin 3 := 2

/-- The host holds the first key pair, the dialer the second. -/
noncomputable def host : HostSession crates := .new (X := crates) (0 : Fin 3) config code nonce 0

noncomputable def dialer : Dialer crates := .new (X := crates) (1 : Fin 3) "laptop" code

end Sample

end Entanglement.Pairing
