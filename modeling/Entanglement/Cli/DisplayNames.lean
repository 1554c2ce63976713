import Entanglement.Cli.Pair

/-!
# Names from the other device

The name of a paired device comes from that device, on six paths: a host and a dialer on the network,
the two sessions of `session.rs`, and the two flows of `cmd/pair.rs`. It is meant to be clean by the
time it is kept. The networked pair sanitises it; the other four keep it as it was sent (`kept_eq`),
so that a kept name is clean exactly if it came over the network or was clean already (`clean_iff`).
-/

namespace Entanglement.Cli

open Lib Pairing Peers

/-- No control character, and at most 64 bytes. -/
def Clean (name : Text) : Prop := (∀ c ∈ name, Text.isControl c = false) ∧ Text.len name ≤ 64

theorem clean_iff_all {name : Text} :
    Clean name ↔ name.all (!Text.isControl ·) = true ∧ Text.len name ≤ 64 := by
  simp [Clean]

instance (name : Text) : Decidable (Clean name) := decidable_of_iff _ clean_iff_all.symm

inductive Channel
  | host
  | dialer
  | initiator
  | responder
  | manualInitiator
  | manualResponder
  deriving DecidableEq

/-- The channels without a network. -/
def Channel.copyPaste : Channel → Bool
  | host => false
  | dialer => false
  | initiator => true
  | responder => true
  | manualInitiator => true
  | manualResponder => true

/-- A pairing over the channel, with an envelope in which the other device is called `sent`, of whom the
name `kept` is recorded. The envelope is the `Accept` that a host handles, the `Offer` that a dialer
finishes with, the `Accept` or `Request` of a session, and what is in the blob that a flow reads. The
record is the outcome of a host or session, and the entry of the flow's store for the envelope's key. -/
inductive Pairs (X : Crates) (B : BlobCrates) : Channel → Text → Text → Prop
  | host {S : HostSession X} {elapsed : Nat} {nowSecs : UInt64} {remoteKey : Key} {frame : Bytes}
      {st : HostState} {accept : PairingAccept} {peer : PairedPeer}
      (hframe : PairingWire.decode X frame = .ok (.accept accept)) (hnew : st.outcome ≠ some peer)
      (h : (S.handle elapsed nowSecs remoteKey frame st).1.outcome = some peer) :
      Pairs X B .host accept.responderDisplayName peer.displayName
  | dialer {D : Dialer X} {remoteKey : Key} {offer : PairingOffer} {finalize : PairingFinalize}
      {peer : PairedPeer} (h : D.finish remoteKey offer finalize = .ok peer) :
      Pairs X B .dialer offer.hostDisplayName peer.displayName
  | initiator {I : Initiator X} {now later : UInt64} {accept : PairingAccept}
      {finalize : PairingFinalize} {peer : PairedPeer}
      (h : (I.handleAccept now later accept).2 = .ok finalize)
      (hpeer : (I.handleAccept now later accept).1.completed = some peer) :
      Pairs X B .initiator accept.responderDisplayName peer.displayName
  | responder {R : Responder X} {finalize : PairingFinalize} {peer : PairedPeer}
      (h : (R.handleFinalize finalize).2 = .ok peer) :
      Pairs X B .responder R.request.initiatorDisplayName peer.displayName
  | manualInitiator {I : InitiatorRun X} {raw : Text} {accept : PairingAccept} {key : Key}
      {store : PeerStore} {peer : TrustedPeer}
      (hread : readBlobLine I.launch.args.consumeAcceptFile I.input = .ok raw)
      (hblob : decodeBlob B B.accept prefixAcc raw = .ok accept)
      (hkey : decodePubkey "responder" accept.responderPubkeyHex = .ok key)
      (h : (runManualInitiator B I).result = .ok store)
      (hpeer : store.get (.fromPublicKeyBytes X.blake3 key) = some peer) :
      Pairs X B .manualInitiator accept.responderDisplayName peer.displayName
  | manualResponder {R : ResponderRun X} {raw : Text} {request : PairingRequest} {key : Key}
      {store : PeerStore} {peer : TrustedPeer}
      (hread : readBlobLine R.launch.args.requestFile R.requestInput = .ok raw)
      (hblob : decodeBlob B B.request prefixReq raw = .ok request)
      (hkey : decodePubkey "initiator" request.initiatorPubkeyHex = .ok key)
      (h : (runManualResponder B R).result = .ok store)
      (hpeer : store.get (.fromPublicKeyBytes X.blake3 key) = some peer) :
      Pairs X B .manualResponder request.initiatorDisplayName peer.displayName

/-! ## What is kept -/

section Kept
variable {X : Crates} {B : BlobCrates}

theorem clean_sanitizeDisplayName (name : Text) : Clean (sanitizeDisplayName name) := by
  refine ⟨?_, sanitizeDisplayName_len_le name⟩
  intro c hc
  rw [sanitizeDisplayName, sanitizeFrom_eq_fill] at hc
  exact Text.isControl_of_mem_fill hc

/-- A host records whom the frame proves, or nobody new. -/
theorem outcome_handle {S : HostSession X} {elapsed : Nat} {nowSecs : UInt64} {k : Key}
    {frame : Bytes} {st : HostState} {peer : PairedPeer}
    (h : (S.handle elapsed nowSecs k frame st).1.outcome = some peer) :
    st.outcome = some peer ∨ S.examine k frame = .proven peer := by
  by_cases hlive : elapsed ≤ S.ttl ∧ st.ended = none
  · obtain ⟨httl, he⟩ := hlive
    cases hx : S.examine k frame with
    | answer r =>
      rw [HostSession.handle_answer nowSecs httl he hx] at h
      exact .inl h
    | failed r =>
      rw [HostSession.handle_failed nowSecs httl he hx, HostState.recordFailedAttempt] at h
      split at h
      all_goals exact .inl h
    | proven p =>
      rw [HostSession.handle_proven nowSecs httl he hx] at h
      cases h
      exact .inr rfl
  · rw [HostSession.handle_not_live nowSecs hlive] at h
    split at h
    all_goals exact .inl h

theorem displayName_of_checkAccept {I : Initiator X} {accept : PairingAccept} {peer : PairedPeer}
    (h : I.checkAccept accept = .ok peer) : peer.displayName = accept.responderDisplayName := by
  unfold Initiator.checkAccept at h
  obtain ⟨_, -, h⟩ := except_bind_eq_ok.1 h
  split at h
  · cases h
  obtain ⟨_, -, h⟩ := except_bind_eq_ok.1 h
  split at h
  · cases h
  split at h
  · cases h
  · cases h
    rfl

theorem displayName_of_checkFinalize {R : Responder X} {payload : Bytes} {finalize : PairingFinalize}
    {peer : PairedPeer} (h : R.checkFinalize payload finalize = .ok peer) :
    peer.displayName = R.request.initiatorDisplayName := by
  unfold Responder.checkFinalize at h
  obtain ⟨_, -, h⟩ := except_bind_eq_ok.1 h
  split at h
  · cases h
  obtain ⟨_, -, h⟩ := except_bind_eq_ok.1 h
  split at h
  · cases h
  · cases h
    rfl

/-- The name that a channel keeps: sanitised on the network, and else as it was sent. -/
def Channel.keep (ch : Channel) (sent : Text) : Text :=
  if ch.copyPaste then sent else sanitizeDisplayName sent

theorem kept_eq {ch : Channel} {sent kept : Text} (h : Pairs X B ch sent kept) :
    kept = ch.keep sent := by
  cases h with
  | host hframe hnew h =>
    obtain ⟨accept, haccept, hproof⟩ :=
      HostSession.examine_eq_proven.1 ((outcome_handle h).resolve_left hnew)
    cases haccept.symm.trans hframe
    obtain ⟨-, -, -, -, rfl⟩ := HostSession.checkProof_eq_some.1 hproof
    rfl
  | dialer h =>
    obtain ⟨-, -, -, rfl⟩ := Dialer.finish_eq_ok.1 h
    rfl
  | initiator h hpeer =>
    obtain ⟨-, peer, hcheck, hcompleted⟩ := Initiator.handleAccept_eq_ok h
    rw [hcompleted] at hpeer
    cases hpeer
    exact displayName_of_checkAccept hcheck
  | responder h =>
    obtain ⟨_, -, hcheck⟩ := Responder.handleFinalize_eq_ok h
    exact displayName_of_checkFinalize hcheck
  | manualInitiator hread hblob hkey h hpeer =>
    obtain ⟨_, _, _, hread', hblob', hkey', hget⟩ := runManualInitiator_ok h
    cases hread.symm.trans hread'
    cases hblob.symm.trans hblob'
    cases hkey.symm.trans hkey'
    cases hpeer.symm.trans hget
    rfl
  | manualResponder hread hblob hkey h hpeer =>
    obtain ⟨_, _, _, hread', hblob', hkey', hget⟩ := runManualResponder_ok h
    cases hread.symm.trans hread'
    cases hblob.symm.trans hblob'
    cases hkey.symm.trans hkey'
    cases hpeer.symm.trans hget
    rfl

/-- **A name is kept clean exactly if** it comes over the network or is sent clean. -/
theorem clean_iff (X : Crates) (B : BlobCrates) (ch : Channel) (sent kept : Text)
    (h : Pairs X B ch sent kept) : Clean kept ↔ (ch.copyPaste = true → Clean sent) := by
  rw [kept_eq h, Channel.keep]
  split
  · next hch => exact ⟨fun hclean _ => hclean, fun hclean => hclean hch⟩
  · next hch => exact iff_of_true (clean_sanitizeDisplayName sent) fun hpaste => absurd hpaste hch

end Kept

/-! ## Names over the copy-paste channels -/

namespace Sample

open Pairing.Sample (crates crates_lawful host dialer code nonce)

section Names
variable (name : Text)

/-- Two sessions whose devices have this name. -/
noncomputable def namedInitiator : Initiator crates := .start host.keypair name code nonce 0

noncomputable def namedResponder : Responder crates :=
  ⟨dialer.keypair, name, (namedInitiator name).request, .accepted (namedInitiator name).payload⟩

noncomputable def named : BlobCrates := blobs (files name name 0)

theorem pairs_initiator : Pairs crates (named name) .initiator name name := by
  have hnow : ¬ (namedInitiator name).Expired 0 := Nat.not_lt_zero _
  have hproof := Initiator.handleAccept_proof crates_lawful (R := namedResponder name) rfl hnow 0 0
  exact .initiator (congrArg Prod.snd hproof)
    (congrArg (fun r => Initiator.completed r.1) hproof)

theorem pairs_responder : Pairs crates (named name) .responder name name := by
  have hfinalize := Responder.handleFinalize_finalize crates_lawful (I := namedInitiator name)
    (R := namedResponder name) rfl rfl 0
  exact .responder (congrArg Prod.snd hfinalize)

theorem pairs_manualInitiator : Pairs crates (named name) .manualInitiator name name := by
  have h := carried name name 0
  have hB := blobs_lawful (files name name 0)
  obtain ⟨store, -, hresult, hget, -⟩ := h.initiator_stores crates_lawful hB
  exact .manualInitiator h.accept (decodeBlob_encodeBlob hB _ rfl (hB.accept_json _))
    (decodePubkey_encode _ _) hresult hget

theorem pairs_manualResponder : Pairs crates (named name) .manualResponder name name := by
  have h := carried name name 0
  have hB := blobs_lawful (files name name 0)
  obtain ⟨store, -, hresult, hget, -⟩ := h.responder_stores crates_lawful hB
  exact .manualResponder h.request (decodeBlob_encodeBlob hB _ rfl (hB.request_json _))
    (decodePubkey_encode _ _) hresult hget

end Names

theorem clean_iff_laptop :
    Pairs crates (named "laptop") .manualInitiator "laptop" "laptop" ∧
      Clean "laptop" :=
  ⟨pairs_manualInitiator _,
    (clean_iff crates _ _ _ _ (pairs_manualInitiator "laptop")).2 fun _ => by decide⟩

/-- A name that clears the terminal is kept on all four copy-paste channels. -/
theorem kept_escape :
    let name := "laptop\x1b[2J".toList
    Pairs crates (named name) .initiator name name ∧ Pairs crates (named name) .responder name name ∧
      Pairs crates (named name) .manualInitiator name name ∧
      Pairs crates (named name) .manualResponder name name ∧ ¬ Clean name :=
  ⟨pairs_initiator _, pairs_responder _, pairs_manualInitiator _, pairs_manualResponder _, by decide⟩

end Sample

end Entanglement.Cli
